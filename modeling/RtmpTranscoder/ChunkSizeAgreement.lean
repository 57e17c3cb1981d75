/-
**Agreeing on a chunk size.**

`Session::send_set_chunk_size` takes any size.  The sender splits by that size from then on; the
number that it announces is masked to 31 bits; the parser of the receiver ignores it if it is 0 or
larger than 16 MiB; and the session of the receiver puts it in force behind the read all the same.
So the two sides end with the same chunk size, whenever it has 31 bits, but the receiver may get there
later than the sender, and to a size of 0 both get: `encode_chunk` does not end then.

What is sent afterwards arrives if neither matters: under a size in range if it would have arrived
anyway, and under a larger one if it is a single chunk also under the size that was in force before,
since it may come in the same read.

Main definitions:

* `Rtmp.SenderCall.Sends`, `Rtmp.SenderCall.encoded` — the calls behind the request;
* `Rtmp.AgreesOn` — both sides have the same chunk size, and all that is sent is received;
* `Rtmp.readSize` — the chunk size of the receiver until the end of the read;
* `Rtmp.Carried` — what arrives.

Main results:

* `Rtmp.SenderCall.run_request` — what is sent;
* `Rtmp.Session.agrees_inRange`, `Rtmp.Session.agrees_resized` — what is received, for a size in range
  and for a larger one;
* `Rtmp.agreesOn_iff` — **the two sides agree exactly if the size has 31 bits and every message sent
  behind it is carried**.
-/

import RtmpTranscoder.ChunkResize

set_option relaxedAutoImplicit false
set_option autoImplicit false

namespace Rtmp

open Incremental

/-! ### What is sent behind the request -/

namespace SenderCall

/-- The chunk that `send_message` makes of a message before it is split. -/
def chunkOf (msg : Message) : Chunk := ⟨Session.messageHeader msg, msg.payload⟩

/-- What a call gives to `encode_chunk`. -/
def encoded : SenderCall → List Chunk
  | .message msg => [chunkOf msg]
  | .command cmd chunkStreamId => [⟨Session.commandHeader cmd.encode chunkStreamId, cmd.encode⟩]
  | .windowAckSize size =>
      [chunkOf ⟨MessageType.windowAckSize.code, 0, 0, WindowAckSizeMessage.encode ⟨size⟩⟩]
  | .setPeerBandwidth size limitType =>
      [chunkOf ⟨MessageType.setPeerBandwidth.code, 0, 0,
        SetPeerBandwidthMessage.encode ⟨size, limitType⟩⟩]
  | .setChunkSize size =>
      [chunkOf ⟨MessageType.setChunkSize.code, 0, 0, SetChunkSizeMessage.encode ⟨size⟩⟩]
  | .drain => []

/-- A call behind the request that can be encoded: the length of a message has 24 bits, and a chunk
stream id is between 2 and 65599. -/
def Sends : SenderCall → Prop
  | .message msg => msg.payload.length ≤ 0xFFFFFF
  | .command cmd chunkStreamId =>
      2 ≤ chunkStreamId.toNat ∧ chunkStreamId.toNat ≤ 65599 ∧ cmd.encode.length ≤ 0xFFFFFF
  | .windowAckSize _ => True
  | .setPeerBandwidth _ _ => True
  | .setChunkSize _ => False
  | .drain => True

instance : DecidablePred Sends
  | .message _ => inferInstanceAs (Decidable (_ ≤ _))
  | .command _ _ => inferInstanceAs (Decidable (_ ∧ _))
  | .windowAckSize _ => inferInstanceAs (Decidable True)
  | .setPeerBandwidth _ _ => inferInstanceAs (Decidable True)
  | .setChunkSize _ => inferInstanceAs (Decidable False)
  | .drain => inferInstanceAs (Decidable True)

end SenderCall

/-- A message that the chunk format can express; if its timestamp is extended, the id of its chunk
stream is spelled in one byte. -/
structure Expressible (chunk : Chunk) : Prop where
  csid : 2 ≤ chunk.header.chunkStreamId.toNat ∧ chunk.header.chunkStreamId.toNat ≤ 65599
  length : chunk.header.messageLength.toNat = chunk.payload.length
  payload : chunk.payload.length ≤ 0xFFFFFF
  stamp : chunk.header.timestamp.toNat < 0xFFFFFF ∨ chunk.header.chunkStreamId.toNat < 64

/-- The encoding of a chunk under the chunk size `n`. -/
def Chunk.encode (n : UInt32) (chunk : Chunk) : Except Failure (List UInt8) :=
  encodeChunk chunk.header chunk.payload n

namespace SenderCall

variable {call : SenderCall} {s s' : Session} {bytes : List UInt8}

theorem map_message_encoded (call : SenderCall) : call.encoded.map Chunk.message = call.sent := by
  cases call <;> rfl

theorem map_message_flatMap (calls : List SenderCall) :
    (calls.flatMap encoded).map Chunk.message = calls.flatMap sent := by
  rw [List.map_flatMap]
  exact List.flatMap_congr fun call _ => map_message_encoded call

/-- What `send_message` makes of a message can be expressed if its length can. -/
theorem expressible_chunkOf {msg : Message} (h : msg.payload.length ≤ 0xFFFFFF) :
    Expressible (chunkOf msg) where
  csid := Session.messageHeader_chunkStreamId msg
  length := UInt32.toNat_ofNat_of_lt' (Nat.lt_of_le_of_lt h (by decide))
  payload := h
  stamp := by
    refine .inr ?_
    simp only [chunkOf, Session.messageHeader]
    split_ifs <;> decide

theorem Sends.expressible (h : call.Sends) : ∀ chunk ∈ call.encoded, Expressible chunk := by
  intro chunk hchunk
  cases call with
  | message msg =>
      rw [List.mem_singleton.1 hchunk]
      exact expressible_chunkOf h
  | command cmd chunkStreamId =>
      rw [List.mem_singleton.1 hchunk]
      exact ⟨⟨h.1, h.2.1⟩, UInt32.toNat_ofNat_of_lt' (Nat.lt_of_le_of_lt h.2.2 (by decide)), h.2.2,
        .inl (by decide : (0 : UInt32).toNat < _)⟩
  | windowAckSize size =>
      rw [List.mem_singleton.1 hchunk]
      exact expressible_chunkOf (by simp)
  | setPeerBandwidth size limitType =>
      rw [List.mem_singleton.1 hchunk]
      exact expressible_chunkOf (by simp)
  | setChunkSize size => cases h
  | drain => cases hchunk

theorem expressible_of_mem {calls : List SenderCall} (h : ∀ call ∈ calls, call.Sends) :
    ∀ chunk ∈ calls.flatMap encoded, Expressible chunk := by
  intro chunk hchunk
  obtain ⟨call, hcall, hmem⟩ := List.mem_flatMap.1 hchunk
  exact (h call hcall).expressible chunk hmem

/-- What holds of the messages holds of the messages in the chunks. -/
theorem forall_encoded {calls : List SenderCall} {P : Message → Prop}
    (h : ∀ msg ∈ calls.flatMap sent, P msg) : ∀ chunk ∈ calls.flatMap encoded, P chunk.message := by
  intro chunk hchunk
  refine h _ ?_
  rw [← map_message_flatMap]
  exact List.mem_map_of_mem hchunk

theorem Sends.run_eq (h : call.Sends) (s : Session) :
    call = .drain ∨ ∃ chunk, call.encoded = [chunk] ∧ call.run s =
      (chunk.encode s.outChunkSize).map fun data =>
        ({ s with writeBuffer := s.writeBuffer.append data }, []) := by
  have hmap {r : Except Failure (List UInt8)} :
      ((do let data ← r; return { s with writeBuffer := s.writeBuffer.append data } :
        Except Failure Session).map fun s => (s, ([] : List UInt8))) =
      r.map fun data => ({ s with writeBuffer := s.writeBuffer.append data }, []) := by
    cases r <;> rfl
  cases call with
  | message msg => exact .inr ⟨_, rfl, hmap⟩
  | command cmd chunkStreamId => exact .inr ⟨_, rfl, hmap⟩
  | windowAckSize size => exact .inr ⟨_, rfl, hmap⟩
  | setPeerBandwidth size limitType => exact .inr ⟨_, rfl, hmap⟩
  | setChunkSize size => cases h
  | drain => exact .inl rfl

variable {later : List SenderCall}

/-- If every chunk can be encoded, the calls succeed, and what is drained is what was in the outgoing
buffer and the encodings. -/
theorem runAll_of_encodings (hlater : ∀ call ∈ later, call.Sends) (hplain : s.writeBuffer.Plain)
    {es : List (List UInt8)}
    (hes : (later.flatMap encoded).map (Chunk.encode s.outChunkSize) = es.map .ok) :
    ∃ s', runAll s (later ++ [.drain]) = .ok (s', s.writeBuffer.readable ++ es.flatten) ∧
      s'.outChunkSize = s.outChunkSize := by
  induction later generalizing s es with
  | nil =>
      obtain rfl := List.map_eq_nil_iff.1 hes.symm
      refine ⟨s.getOutgoingData.1, ?_, rfl⟩
      simp [runAll, run, Session.getOutgoingData, Except.map]
  | cons call later ih =>
      have hrest := fun c hc => hlater c (List.mem_cons_of_mem call hc)
      rw [List.flatMap_cons, List.map_append] at hes
      rcases (hlater call List.mem_cons_self).run_eq s with rfl | ⟨chunk, hchunk, hrun⟩
      · obtain ⟨s', hs', hsize⟩ := @ih s.getOutgoingData.1 hrest (Buffer.plain_clear _) es hes
        refine ⟨s', ?_, hsize⟩
        simp only [Session.getOutgoingData, Buffer.readable_clear, List.nil_append] at hs'
        simp only [List.cons_append, runAll, run, Session.getOutgoingData, hs', Except.map]
      · rw [hchunk] at hes
        obtain ⟨before, rest, rfl, hbefore, hafter⟩ := List.map_eq_append_iff.1 hes.symm
        obtain ⟨data, rfl, hdata⟩ := List.map_eq_singleton_iff.1 hbefore
        obtain ⟨s', hs', hsize⟩ := @ih { s with writeBuffer := s.writeBuffer.append data } hrest
          (hplain.append data) rest hafter.symm
        refine ⟨s', ?_, hsize⟩
        have hok : call.run s = .ok ({ s with writeBuffer := s.writeBuffer.append data }, []) := by
          rw [hrun, ← hdata]
          rfl
        simp only [List.cons_append, runAll, hok, hs', Except.map, hplain.readable_append,
          List.nil_append, List.append_assoc, List.flatten_cons]

theorem exists_encodings (hlater : ∀ call ∈ later, call.Sends)
    {r : Session × List UInt8} (hrun : runAll s (later ++ [.drain]) = .ok r) :
    ∃ es : List (List UInt8),
      (later.flatMap encoded).map (Chunk.encode s.outChunkSize) = es.map .ok := by
  induction later generalizing s r with
  | nil => exact ⟨[], rfl⟩
  | cons call later ih =>
      have hrest := fun c hc => hlater c (List.mem_cons_of_mem call hc)
      rw [List.cons_append, runAll] at hrun
      rcases (hlater call List.mem_cons_self).run_eq s with rfl | ⟨chunk, hchunk, hcall⟩
      · simp only [run] at hrun
        cases hs : runAll s.getOutgoingData.1 (later ++ [.drain]) with
        | error f =>
            rw [hs] at hrun
            cases hrun
        | ok r' => exact @ih s.getOutgoingData.1 hrest r' hs
      · rw [hcall] at hrun
        cases hdata : chunk.encode s.outChunkSize with
        | error f =>
            rw [hdata] at hrun
            cases hrun
        | ok data =>
            rw [hdata] at hrun
            simp only [Except.map] at hrun
            cases hs : runAll { s with writeBuffer := s.writeBuffer.append data } (later ++ [.drain])
              with
            | error f =>
                rw [hs] at hrun
                cases hrun
            | ok r' =>
                obtain ⟨es, hes⟩ := ih hrest hs
                refine ⟨data :: es, ?_⟩
                rw [List.flatMap_cons, List.map_append, hchunk, hes, List.map_singleton, hdata]
                rfl

end SenderCall

/-! ### The two sides -/

/-- The message that `send_set_chunk_size` sends. -/
def setChunkSizeMessage (size : UInt32) : Message :=
  ⟨MessageType.setChunkSize.code, 0, 0, SetChunkSizeMessage.encode ⟨size⟩⟩

/-- The calls are made, then the chunk size is asked for, then come the later calls, and everything is
drained.  The calls succeed, and a receiver that gets what is drained, cut in any way, receives all the
messages that were sent; from the read on in which it receives the announcement, the chunk size of its
parser is the one by which the sender splits. -/
def AgreesOn (sender receiver : Session) (size : UInt32) (calls later : List SenderCall) : Prop :=
  ∃ s bytes,
    SenderCall.runAll sender (calls ++ .setChunkSize size :: later ++ [.drain]) = .ok (s, bytes) ∧
    ∀ reads : List (List UInt8), reads.flatten = bytes →
      (receiver.processAll reads).2
        = (calls ++ .setChunkSize size :: later).flatMap SenderCall.sent ∧
      ∀ before after, reads = before ++ after →
        (calls.flatMap SenderCall.sent).length < (receiver.processAll before).2.length →
        (receiver.processAll before).1.parser.chunkSize = s.outChunkSize

/-- The chunk size of the receiver's parser between the announcement of `size` and the end of the read,
if it was `n` before. -/
def readSize (n size : UInt32) : UInt32 := if InRange size then size else n

/-- A message behind the announcement of `size` that arrives: it has a payload, which can be split, and
the chunks that it is split into are read as they were written; and it does not announce another chunk
size by itself. -/
structure Carried (n size : UInt32) (msg : Message) : Prop where
  nonempty : msg.payload ≠ []
  nonzero : size ≠ 0
  fits : msg.payload.length ≤ (readSize n size).toNat ∨
    InRange size ∧ msg.timestamp.toNat < 0xFFFFFF
  announces : ∀ value, announced msg = some value → value = size

theorem announced_setChunkSizeMessage (size : UInt32) :
    announced (setChunkSizeMessage size) = some (size &&& 0x7FFFFFFF) := by
  have hmask : (size &&& 0x7FFFFFFF).toNat < 2 ^ 31 := by
    rw [toNat_and_mask31]
    exact Nat.mod_lt _ (by decide)
  have hencode : SetChunkSizeMessage.encode ⟨size⟩
      = SetChunkSizeMessage.encode ⟨size &&& 0x7FFFFFFF⟩ := by
    rw [SetChunkSizeMessage.encode, SetChunkSizeMessage.encode, and_mask31_of_lt hmask]
  rw [announced, setChunkSizeMessage, if_pos rfl, hencode, SetChunkSizeMessage.parse_encode hmask]
  rfl

theorem announced_of_lt {size : UInt32} (h : size.toNat < 2 ^ 31) :
    announced (setChunkSizeMessage size) = some size := by
  rw [announced_setChunkSizeMessage, and_mask31_of_lt h]

theorem lastInRange_setChunkSizeMessage (n : UInt32) {size : UInt32} (h : size.toNat < 2 ^ 31) :
    lastInRange n [setChunkSizeMessage size] = readSize n size := by
  unfold readSize
  split_ifs with hsize <;> simp [lastInRange, announced_of_lt h, hsize]

/-! ### The sender -/

/-- **What is sent**: the announcement is encoded behind what is on its way, and the later calls succeed
if all that they send can be encoded under the new chunk size. -/
theorem SenderCall.run_request (policy : GrowthPolicy) (handshake : Handshake)
    {calls : List SenderCall} (hcalls : ∀ call ∈ calls, call.Valid) (size : UInt32) :
    ∃ bytes,
      Decodes bytes (calls.flatMap SenderCall.sent ++ [setChunkSizeMessage size])
        (lastInRange (lastInRange 128 (calls.flatMap SenderCall.sent)) [setChunkSizeMessage size]) ∧
      (∀ msg ∈ calls.flatMap SenderCall.sent, ∀ value, announced msg = some value → InRange value) ∧
      ∀ later : List SenderCall, (∀ call ∈ later, call.Sends) →
        (∀ r, SenderCall.runAll (Session.established policy handshake)
            (calls ++ .setChunkSize size :: later ++ [.drain]) = .ok r →
          ∃ es : List (List UInt8),
            (later.flatMap SenderCall.encoded).map (Chunk.encode size) = es.map .ok) ∧
        ∀ es : List (List UInt8),
          (later.flatMap SenderCall.encoded).map (Chunk.encode size) = es.map .ok →
          ∃ s, SenderCall.runAll (Session.established policy handshake)
              (calls ++ .setChunkSize size :: later ++ [.drain]) = .ok (s, bytes ++ es.flatten) ∧
            s.outChunkSize = size := by
  obtain ⟨s, drained, hrun, htransit⟩ := (InTransit.established policy handshake).runAll hcalls
  rw [List.nil_append, List.nil_append] at htransit
  have hn : s.outChunkSize = lastInRange 128 (calls.flatMap SenderCall.sent) := by
    obtain ⟨pieces, chunks, core, -, -, hwhole, -, hsize, hchunks⟩ := htransit.decodes
    rw [← hsize, Run.chunkSize hwhole.run, hchunks]
    rfl
  obtain ⟨data, hdata, hdecodes⟩ := @Decodes.encode _ _ _ htransit.decodes htransit.outChunkSize
    (Session.messageHeader (setChunkSizeMessage size)) (setChunkSizeMessage size).payload
    (Session.messageHeader_chunkStreamId (setChunkSizeMessage size)) rfl
    (by decide : 1 ≤ 4 ∧ 4 ≤ 0xFFFFFF) (by decide : (0 : UInt32).toNat < _)
  refine ⟨drained ++ s.writeBuffer.readable ++ data, ?_, htransit.announced, fun later hlater => ?_⟩
  · rw [← hn]
    exact hdecodes
  · -- the session that the later calls are made on
    let next : Session :=
      { s with writeBuffer := s.writeBuffer.append data, outChunkSize := size }
    have hnext : next.writeBuffer.Plain := htransit.buffer.append data
    have hrequest : (SenderCall.setChunkSize size).run s = .ok (next, []) := by
      change (s.sendSetChunkSize size).map _ = _
      rw [Session.sendSetChunkSize, Session.sendMessage]
      change Except.map _ (((encodeChunk (Session.messageHeader (setChunkSizeMessage size))
        (setChunkSizeMessage size).payload s.outChunkSize).bind _).bind _) = _
      rw [hdata]
      rfl
    have hsplit : SenderCall.runAll (Session.established policy handshake)
        (calls ++ .setChunkSize size :: later ++ [.drain]) =
          (SenderCall.runAll next (later ++ [.drain])).map fun q => (q.1, drained ++ q.2) := by
      rw [List.append_assoc, SenderCall.runAll_append, hrun]
      simp only [List.cons_append, SenderCall.runAll, hrequest]
      cases SenderCall.runAll next (later ++ [.drain]) <;> rfl
    rw [hsplit]
    constructor
    · intro r hr
      cases hlast : SenderCall.runAll next (later ++ [.drain]) with
      | error f =>
          rw [hlast] at hr
          cases hr
      | ok q => exact SenderCall.exists_encodings hlater hlast
    · intro es hes
      obtain ⟨s', hs', hsize⟩ := SenderCall.runAll_of_encodings hlater hnext hes
      refine ⟨s', ?_, hsize⟩
      rw [hs', Except.map, htransit.buffer.readable_append]
      simp only [List.append_assoc]

/-! ### The encodings of what is carried -/

section Carried

variable {n size : UInt32} {chunk : Chunk} {chunks : List Chunk}

/-- The chunk as it is handed over. -/
def Chunk.decoded (chunk : Chunk) : Chunk := ⟨headerOf chunk.header, chunk.payload⟩

theorem inRange_readSize (hn : InRange n) (size : UInt32) : InRange (readSize n size) := by
  unfold readSize
  split_ifs with hsize
  · exact hsize
  · exact hn

theorem Carried.one_le {msg : Message} (h : Carried n size msg) : 1 ≤ size.toNat := by
  have hne := h.nonzero
  rw [ne_eq, ← UInt32.toNat_inj] at hne
  exact Nat.one_le_iff_ne_zero.2 hne

/-- A size out of range that carries a message is larger than any payload. -/
theorem Carried.length_le (h : Carried n size chunk.message) (hsize : ¬ InRange size)
    (hchunk : Expressible chunk) : chunk.payload.length ≤ size.toNat := by
  have hpayload := hchunk.payload
  have hpos := h.one_le
  unfold InRange at hsize
  omega

theorem Carried.length_le_readSize (h : Carried n size chunk.message) (hsize : ¬ InRange size) :
    chunk.payload.length ≤ n.toNat := by
  rcases h.fits with hfits | ⟨hrange, -⟩
  · rwa [readSize, if_neg hsize] at hfits
  · exact absurd hrange hsize

theorem Carried.lastInRange (h : Carried n size chunk.message) :
    lastInRange (readSize n size) [chunk.message] = readSize n size := by
  refine lastInRange_of_same fun msg hmsg value hann hrange => ?_
  rw [List.mem_singleton.1 hmsg] at hann
  have hvalue := h.announces value hann
  rw [hvalue] at hrange ⊢
  rw [readSize, if_pos hrange]

/-- **What is carried is decoded**, behind the announcement and what has been carried before. -/
theorem Carried.decodes (h : Carried n size chunk.message) (hn : InRange n)
    (hchunk : Expressible chunk) {data : List UInt8} (hdata : chunk.encode size = .ok data)
    {bytes : List UInt8} {sent : List Message} (hd : Decodes bytes sent (readSize n size)) :
    Decodes (bytes ++ data) (sent ++ [chunk.message]) (readSize n size) := by
  have hpayload : 1 ≤ chunk.payload.length := List.length_pos_of_ne_nil h.nonempty
  -- the chunks are those that are made under the chunk size of the receiver
  have hencode : encodeChunk chunk.header chunk.payload (readSize n size) = .ok data := by
    by_cases hsize : InRange size
    · rw [readSize, if_pos hsize]
      exact hdata
    · have hread := h.length_le_readSize hsize
      rw [readSize, if_neg hsize, encodeChunk_one hpayload hread, ← hdata, Chunk.encode,
        encodeChunk_one hpayload (h.length_le hsize hchunk)]
  have hstamp : chunk.header.timestamp.toNat < 0xFFFFFF ∨
      chunk.payload.length ≤ (readSize n size).toNat := by
    rcases h.fits with hfits | ⟨-, hstamp⟩
    · exact .inr hfits
    · exact .inl hstamp
  obtain ⟨data', hencode', hdecodes⟩ := hd.encodeChunk (inRange_readSize hn size).1 hchunk.csid
    hchunk.length ⟨hpayload, hchunk.payload⟩ hstamp
  obtain rfl := Except.ok.inj (hencode.symm.trans hencode')
  have hsame : Chunk.message ⟨headerOf chunk.header, chunk.payload⟩ = chunk.message := rfl
  rwa [hsame, h.lastInRange] at hdecodes

theorem decodes_carried (hn : InRange n) (hchunks : ∀ chunk ∈ chunks, Expressible chunk)
    (h : ∀ chunk ∈ chunks, Carried n size chunk.message) {es : List (List UInt8)}
    (hes : chunks.map (Chunk.encode size) = es.map .ok) {bytes : List UInt8} {sent : List Message}
    (hd : Decodes bytes sent (readSize n size)) :
    Decodes (bytes ++ es.flatten) (sent ++ chunks.map Chunk.message) (readSize n size) := by
  induction chunks generalizing es bytes sent with
  | nil =>
      obtain rfl := List.map_eq_nil_iff.1 hes.symm
      simpa using hd
  | cons chunk chunks ih =>
      obtain ⟨data, es, rfl, hdata, hrest⟩ := List.map_eq_cons_iff.1 hes.symm
      have hone := (h chunk List.mem_cons_self).decodes hn (hchunks chunk List.mem_cons_self)
        hdata.symm hd
      have hall := ih (fun c hc => hchunks c (List.mem_cons_of_mem _ hc))
        (fun c hc => h c (List.mem_cons_of_mem _ hc)) hrest.symm hone
      rwa [List.append_assoc, List.append_assoc] at hall

/-- Under a size that is not in range every message is one chunk. -/
theorem exists_alone (hsize : ¬ InRange size) (hchunks : ∀ chunk ∈ chunks, Expressible chunk)
    (h : ∀ chunk ∈ chunks, Carried n size chunk.message) {es : List (List UInt8)}
    (hes : chunks.map (Chunk.encode size) = es.map .ok) :
    ∃ pieces : List Piece, es = pieces.map Piece.bytes ∧
      List.Forall₂ Alone pieces (chunks.map Chunk.decoded) := by
  induction chunks generalizing es with
  | nil => exact ⟨[], List.map_eq_nil_iff.1 hes.symm, .nil⟩
  | cons chunk chunks ih =>
      obtain ⟨data, es, rfl, hdata, hrest⟩ := List.map_eq_cons_iff.1 hes.symm
      have hcarried := h chunk List.mem_cons_self
      have hexpress := hchunks chunk List.mem_cons_self
      obtain ⟨piece, hpiece, halone⟩ := encodeChunk_alone hexpress.csid hexpress.length
        ⟨List.length_pos_of_ne_nil hcarried.nonempty, hexpress.payload⟩
        (hcarried.length_le hsize hexpress)
      obtain ⟨pieces, rfl, hpieces⟩ := ih (fun c hc => hchunks c (List.mem_cons_of_mem _ hc))
        (fun c hc => h c (List.mem_cons_of_mem _ hc)) hrest.symm
      obtain rfl := Except.ok.inj (hdata.trans hpiece)
      exact ⟨piece :: pieces, rfl, .cons halone hpieces⟩

theorem exists_encode (h : ∀ chunk ∈ chunks, Carried n size chunk.message) :
    ∃ es : List (List UInt8), chunks.map (Chunk.encode size) = es.map .ok := by
  have hrange : chunks.map (Chunk.encode size) ∈ Set.range (List.map Except.ok) := by
    rw [Set.range_list_map]
    intro r hr
    obtain ⟨chunk, hchunk, rfl⟩ := List.mem_map.1 hr
    obtain ⟨data, hdata⟩ := exists_encodeChunk chunk.header chunk.payload (h chunk hchunk).one_le
    exact ⟨data, hdata.symm⟩
  obtain ⟨es, hes⟩ := hrange
  exact ⟨es, hes.symm⟩

end Carried

/-! ### The receiver -/

/-- A prefix that reaches beyond `a` contains what comes behind it. -/
theorem exists_of_append_eq {α : Type*} {p q a b : List α} {x : α} (h : p ++ q = a ++ x :: b)
    (hlt : a.length < p.length) : ∃ l, p = a ++ x :: l ∧ b = l ++ q := by
  rcases List.append_eq_append_iff.1 h with ⟨l, rfl, -⟩ | ⟨l, rfl, hl⟩
  · rw [List.length_append] at hlt
    omega
  · cases l with
    | nil => simp at hlt
    | cons y l =>
        obtain ⟨rfl, rfl⟩ := List.cons.inj hl
        exact ⟨l, rfl, rfl⟩

/-- Somewhere a list that grows beyond `k` does so. -/
theorem exists_crossing {α : Type*} (count : List α → ℕ) {k : ℕ} {l : List α} (hnil : count [] ≤ k)
    (hl : k < count l) :
    ∃ before x after, l = before ++ x :: after ∧ count before ≤ k ∧ k < count (before ++ [x]) := by
  induction l using List.reverseRecOn with
  | nil => omega
  | append_singleton l x ih =>
      rcases Nat.lt_or_ge k (count l) with hlt | hge
      · obtain ⟨before, y, after, rfl, hbefore, hafter⟩ := ih hlt
        exact ⟨before, y, after ++ [x], by simp, hbefore, hafter⟩
      · exact ⟨l, x, [], rfl, hge, hl⟩

/-- A first part of the list that has grown beyond `k` contains the place where it does so. -/
theorem exists_behind_crossing {α : Type*} (count : List α → ℕ) {k : ℕ}
    (hmono : ∀ l₁ l₂, count l₁ ≤ count (l₁ ++ l₂)) {before after b d : List α} {x : α}
    (hbefore : count before ≤ k) (hb : k < count b) (hsplit : before ++ x :: after = b ++ d) :
    ∃ behind, b = (before ++ [x]) ++ behind ∧ after = behind ++ d := by
  rcases List.append_eq_append_iff.1 hsplit with ⟨more, rfl, hmore⟩ | ⟨more, rfl, -⟩
  · cases more with
    | nil =>
        rw [List.append_nil] at hb
        omega
    | cons y more =>
        obtain ⟨rfl, rfl⟩ := List.cons.inj hmore
        exact ⟨more, by simp, rfl⟩
  · -- it is no longer than what comes before that place
    have := hmono b more
    omega

section Receiver

variable {policy : GrowthPolicy} {handshake : Handshake} {size : UInt32}
  {before after : List Message} {msg : Message} {reads : List (List UInt8)}

/-- What a fresh parser hands over for some of the reads is the first part of what it hands over for
all of them. -/
theorem Decodes.feedAll_prefix {n : UInt32} {sent : List Message}
    (h : Decodes reads.flatten sent n) {r₁ r₂ : List (List UInt8)} (hreads : reads = r₁ ++ r₂) :
    ∃ rest, (chunkDecoder.feedAll (fresh 128) r₁).2.map Chunk.message ++ rest = sent := by
  have hall := h.feedAll
  rw [hreads, chunkDecoder.feedAll_append, List.map_append] at hall
  exact ⟨_, hall⟩

/-- **A size in range**: the parser takes it over with the message, and the session leaves it alone. -/
theorem Session.agrees_inRange (hdone : handshake.isDone = true) (hsize : InRange size)
    (hmsg : announced msg = some size)
    (hbefore : ∀ m ∈ before, ∀ value, announced m = some value → InRange value)
    (hafter : ∀ m ∈ after, ∀ value, announced m = some value → value = size)
    (h : Decodes reads.flatten (before ++ msg :: after) size) :
    ((established policy handshake).processAll reads).2 = before ++ msg :: after ∧
      ∀ r₁ r₂, reads = r₁ ++ r₂ →
        before.length < ((established policy handshake).processAll r₁).2.length →
        ((established policy handshake).processAll r₁).1.parser.chunkSize = size := by
  have hrange : ∀ m ∈ before ++ msg :: after, ∀ value, announced m = some value → InRange value := by
    intro m hm value hann
    rcases List.mem_append.1 hm with hm | hm
    · exact hbefore m hm value hann
    · rcases List.mem_cons.1 hm with rfl | hm
      · rwa [← Option.some.inj (hmsg.symm.trans hann)]
      · rwa [hafter m hm value hann]
  have hparser {r₁ r₂ : List (List UInt8)} (hreads : reads = r₁ ++ r₂) :=
    @processAll_of_inRange (established policy handshake) hdone r₁ fun m hm => by
      obtain ⟨rest, hrest⟩ := h.feedAll_prefix hreads
      refine hrange m ?_
      rw [← hrest]
      exact List.mem_append_left _ hm
  refine ⟨?_, fun r₁ r₂ hreads hcount => ?_⟩
  · rw [hparser (List.append_nil reads).symm]
    exact h.feedAll
  · rw [hparser hreads] at hcount ⊢
    obtain ⟨rest, hrest⟩ := h.feedAll_prefix hreads
    obtain ⟨more, hmore, rfl⟩ := exists_of_append_eq hrest hcount
    have hlast := feedAll_chunkSize (fresh 128) r₁
    have hcons : before ++ msg :: more = before ++ [msg] ++ more := by simp
    have hone (n : UInt32) : lastInRange n [msg] = size := by
      simp [lastInRange, hmsg, hsize]
    rw [hmore, hcons, lastInRange_append, lastInRange_append, hone] at hlast
    refine hlast.trans (lastInRange_of_same fun m hm value hann _ => ?_)
    exact hafter m (List.mem_append_left _ hm) value hann

/-- A read in which a chunk size is announced, in range or not, behind reads in which only values in
range are: the session is left with that chunk size. -/
theorem Session.processAll_announced (hdone : handshake.isDone = true)
    (hmsg : announced msg = some size) {r : List (List UInt8)} {data : List UInt8}
    (hr : ∀ m ∈ (chunkDecoder.feedAll (fresh 128) r).2.map Chunk.message,
      ∀ value, announced m = some value → InRange value)
    (hdata : (chunkDecoder.feed (chunkDecoder.feedAll (fresh 128) r).1 data).2.map Chunk.message
      = before ++ msg :: after)
    (hafter : ∀ m ∈ after, ∀ value, announced m = some value → value = size)
    {c : (ParserCore × List UInt8) × List Chunk}
    (hc : chunkDecoder.feedAll (fresh 128) (r ++ [data]) = c) :
    (established policy handshake).processAll (r ++ [data]) =
      ({ established policy handshake with parser := { c.1.1.resize size with buffer := c.1.2 } },
        c.2.map Chunk.message) := by
  have hfirst := @processAll_of_inRange (established policy handshake) hdone r hr
  change _ = ({ established policy handshake with
    parser := { (chunkDecoder.feedAll (fresh 128) r).1.1 with
      buffer := (chunkDecoder.feedAll (fresh 128) r).1.2 } },
    (chunkDecoder.feedAll (fresh 128) r).2.map Chunk.message) at hfirst
  rw [chunkDecoder.feedAll_append, chunkDecoder.feedAll_cons, chunkDecoder.feedAll_nil,
    List.append_nil] at hc
  rw [processAll_append, hfirst, processAll_cons, processAll_nil, processInput_eq hdone, foldl_handle,
    ← hc, List.map_append]
  simp only [List.append_nil, hdata]
  rw [getLastD_announced hmsg before hafter]
  rfl

/-- What a parser makes of the reads behind the announcement, if its chunk size is changed then. -/
theorem Decodes.feedAll_resize {bytes : List UInt8} {n : UInt32}
    (h : Decodes bytes (before ++ [msg]) n) {pieces : List Piece} {chunks : List Chunk}
    (hpieces : List.Forall₂ Alone pieces chunks)
    (hroom₁ : ∀ chunk ∈ chunks, chunk.payload.length ≤ n.toNat)
    (hroom : ∀ chunk ∈ chunks, chunk.payload.length ≤ size.toNat)
    (hkeep : ∀ chunk ∈ chunks, ∀ value, announced chunk.message = some value → ¬ InRange value)
    {r₁ r₂ : List (List UInt8)}
    (hreads : (r₁ ++ r₂).flatten = bytes ++ pieces.flatMap Piece.bytes) {sent : List Message}
    (hall : Decodes (r₁ ++ r₂).flatten sent n) {c : (ParserCore × List UInt8) × List Chunk}
    (hc : chunkDecoder.feedAll (fresh 128) r₁ = c) (hfar : before.length < c.2.length) :
    c.2.map Chunk.message ++
        (chunkDecoder.feedAll (c.1.1.resize size, c.1.2) r₂).2.map Chunk.message =
      before ++ [msg] ++ chunks.map Chunk.message := by
  have hfeed : chunkDecoder.feedAll (fresh 128) r₁ = chunkDecoder.feed (fresh 128) r₁.flatten :=
    hall.feedAll_flatten (by rw [List.flatten_append]; exact List.prefix_append ..)
  rw [hc] at hfeed
  obtain ⟨pieces₁, out, core, rfl, -, hwhole, hidle, hsize, hout⟩ := h
  have hlen : out.length ≤ c.2.length := by
    have hout' := congrArg List.length hout
    rw [List.length_map, List.length_append, List.length_singleton] at hout'
    omega
  have hbytes : (pieces₁ ++ pieces).flatMap Piece.bytes = r₁.flatten ++ r₂.flatten := by
    rw [List.flatMap_append, ← hreads, List.flatten_append]
  rw [hfeed] at hlen ⊢
  have hresize := Rtmp.feedAll_resize hwhole (Sane.new 128) (by decide) hidle hpieces
    (by rwa [hsize]) hroom hkeep hbytes hlen
  have hmap := congrArg (List.map Chunk.message) hresize
  rw [List.map_append, List.map_append, hout] at hmap
  exact hmap

/-- The read in which the announcement is complete: what has been received before it, and in it. -/
theorem Decodes.exists_announcing {n : UInt32}
    (hall : Decodes reads.flatten (before ++ msg :: after) n) :
    ∃ r₁ data r₂ old new rest, reads = (r₁ ++ [data]) ++ r₂ ∧ after = new ++ rest ∧
      (chunkDecoder.feedAll (fresh 128) r₁).2.length ≤ before.length ∧
      before.length < (chunkDecoder.feedAll (fresh 128) (r₁ ++ [data])).2.length ∧
      (chunkDecoder.feedAll (fresh 128) r₁).2.map Chunk.message ++ old = before ∧
      (chunkDecoder.feed (chunkDecoder.feedAll (fresh 128) r₁).1 data).2.map Chunk.message =
        old ++ msg :: new ∧
      (chunkDecoder.feedAll (fresh 128) (r₁ ++ [data])).2.map Chunk.message =
        before ++ msg :: new := by
  obtain ⟨r₁, data, r₂, rfl, hr₁, hdata⟩ := exists_crossing
    (fun reads => (chunkDecoder.feedAll (fresh 128) reads).2.length) (Nat.zero_le before.length) (by
      have hlen := congrArg List.length hall.feedAll
      rw [List.length_map, List.length_append, List.length_cons] at hlen
      omega : before.length < (chunkDecoder.feedAll (fresh 128) reads).2.length)
  have hsplit : r₁ ++ data :: r₂ = (r₁ ++ [data]) ++ r₂ := by simp
  rw [hsplit] at hall
  obtain ⟨rest₁, hrest₁⟩ := hall.feedAll_prefix (List.append_assoc r₁ [data] r₂)
  obtain ⟨rest₂, hrest₂⟩ := hall.feedAll_prefix rfl
  obtain ⟨old, hold⟩ : (chunkDecoder.feedAll (fresh 128) r₁).2.map Chunk.message <+: before :=
    List.prefix_of_prefix_length_le ⟨rest₁, hrest₁⟩ (List.prefix_append ..) (by simpa using hr₁)
  obtain ⟨new, hnew, rfl⟩ := exists_of_append_eq hrest₂ (by simpa using hdata)
  have hread : (chunkDecoder.feed (chunkDecoder.feedAll (fresh 128) r₁).1 data).2.map Chunk.message
      = old ++ msg :: new := by
    rw [chunkDecoder.feedAll_append, chunkDecoder.feedAll_cons, chunkDecoder.feedAll_nil,
      List.append_nil, List.map_append, ← hold, List.append_assoc, List.append_cancel_left_eq] at hnew
    exact hnew
  exact ⟨r₁, data, r₂, old, new, rest₂, hsplit, rfl, hr₁, hdata, hold, hread, hnew⟩

/-- **A larger size**: the parser ignores it, and the session puts it in force behind the read.  What
comes behind the announcement is read as it was written, before and after. -/
theorem Session.agrees_resized (hdone : handshake.isDone = true) (hsize : ¬ InRange size)
    (hmsg : announced msg = some size)
    (hbefore : ∀ m ∈ before, ∀ value, announced m = some value → InRange value)
    (hafter : ∀ m ∈ after, ∀ value, announced m = some value → value = size)
    {n : UInt32} {bytes : List UInt8} (h : Decodes bytes (before ++ [msg]) n)
    {pieces : List Piece} {chunks : List Chunk} (hpieces : List.Forall₂ Alone pieces chunks)
    (hchunks : chunks.map Chunk.message = after)
    (hroom₁ : ∀ chunk ∈ chunks, chunk.payload.length ≤ n.toNat)
    (hroom : ∀ chunk ∈ chunks, chunk.payload.length ≤ size.toNat)
    (hreads : reads.flatten = bytes ++ pieces.flatMap Piece.bytes)
    (hall : Decodes reads.flatten (before ++ msg :: after) n) :
    ((established policy handshake).processAll reads).2 = before ++ msg :: after ∧
      ∀ r₁ r₂, reads = r₁ ++ r₂ →
        before.length < ((established policy handshake).processAll r₁).2.length →
        ((established policy handshake).processAll r₁).1.parser.chunkSize = size := by
  obtain ⟨r₁, data, r₂, old, new, rest₂, rfl, rfl, hr₁, hdata, hold, hread, hnew⟩ :=
    hall.exists_announcing
  have hrange : ∀ m ∈ (chunkDecoder.feedAll (fresh 128) r₁).2.map Chunk.message,
      ∀ value, announced m = some value → InRange value := by
    intro m hm
    refine hbefore m ?_
    rw [← hold]
    exact List.mem_append_left _ hm
  generalize hc : chunkDecoder.feedAll (fresh 128) (r₁ ++ [data]) = c at hdata hnew
  have hsession := @processAll_announced policy handshake size old new msg hdone hmsg r₁ data hrange
    hread (fun m hm => hafter m (List.mem_append_left _ hm)) c hc
  -- what comes behind it, under the chunk size that the session is left with
  have hkeep : ∀ chunk ∈ chunks, ∀ value, announced chunk.message = some value → ¬ InRange value := by
    intro chunk hchunk value hann
    rw [hafter chunk.message (hchunks ▸ List.mem_map_of_mem hchunk) value hann]
    exact hsize
  have hlater : (chunkDecoder.feedAll (c.1.1.resize size, c.1.2) r₂).2.map Chunk.message = rest₂ := by
    have hall' := h.feedAll_resize hpieces hroom₁ hroom hkeep hreads hall hc hdata
    rw [hnew, hchunks] at hall'
    simpa using hall'
  rw [hnew] at hsession
  have hbehind {b d : List (List UInt8)} (hb : r₂ = b ++ d) :
      ∀ m ∈ (chunkDecoder.feedAll (c.1.1.resize size, c.1.2) b).2.map Chunk.message,
        ∀ value, announced m = some value → value = size := by
    intro m hm
    refine hafter m (List.mem_append_right _ ?_)
    rw [← hlater, hb, chunkDecoder.feedAll_append, List.map_append]
    exact List.mem_append_left _ hm
  have hparser {b d : List (List UInt8)} (hb : r₂ = b ++ d) :=
    @processAll_of_same { established policy handshake with
      parser := { c.1.1.resize size with buffer := c.1.2 } } hdone b (hbehind hb)
  refine ⟨?_, fun b d hbd hcount => ?_⟩
  · rw [processAll_append, hsession, hparser (List.append_nil r₂).symm]
    change before ++ msg :: new ++ List.map _ (chunkDecoder.feedAll _ r₂).2 = _
    rw [hlater, List.append_assoc, List.cons_append]
  · obtain ⟨behind, hb, hr₂⟩ : ∃ behind, b = (r₁ ++ [data]) ++ behind ∧ r₂ = behind ++ d := by
      refine exists_behind_crossing
        (fun reads => ((established policy handshake).processAll reads).2.length)
        (fun b d => ?_) ?_ hcount ((List.append_cons r₁ data r₂).trans hbd)
      · rw [processAll_append, List.length_append]
        exact Nat.le_add_right ..
      · rw [@processAll_of_inRange (established policy handshake) hdone r₁ hrange, List.length_map]
        exact hr₁
    rw [hb, processAll_append, hsession, hparser hr₂]
    refine (feedAll_chunkSize (c.1.1.resize size, c.1.2) behind).trans ?_
    exact lastInRange_of_same fun m hm value hann _ => hbehind hr₂ m hm value hann

end Receiver

/-! ### Exactly what is carried -/

theorem Session.processAll_single (policy : GrowthPolicy) {handshake : Handshake}
    (hdone : handshake.isDone = true) (data : List UInt8) :
    ((established policy handshake).processAll [data]).2
        = (chunkDecoder.feed (fresh 128) data).2.map Chunk.message ∧
      ((established policy handshake).processAll [data]).1.parser.chunkSize
        = (((established policy handshake).processAll [data]).2.filterMap announced).getLastD
          (lastInRange 128 ((established policy handshake).processAll [data]).2) := by
  have hinput := @processInput_eq (established policy handshake) hdone data
  have hsize := @chunkSize_processInput (established policy handshake) hdone data
  rw [processAll_cons, processAll_nil, List.append_nil]
  exact ⟨congrArg (fun r => r.2.1) hinput, hsize⟩

section Exact

variable {n size : UInt32} {chunk : Chunk}

/-- **A message that arrives is carried**, whatever the parser has received before, if it is between
messages on every chunk stream. -/
theorem Carried.of_feed {core : ParserCore} (hs : Sane core) (hidle : Idle core) (hn : InRange n)
    (hsize : core.chunkSize = readSize n size) (hchunk : Expressible chunk) {data : List UInt8}
    (hdata : chunk.encode size = .ok data)
    (hout : (chunkDecoder.feed (core, []) data).2.map Chunk.message = [chunk.message])
    (hannounces : ∀ value, announced chunk.message = some value → value = size) :
    Carried n size chunk.message := by
  have hnonempty : chunk.payload ≠ [] := by
    -- no chunk at all is encoded
    intro hempty
    rw [Chunk.encode, hempty] at hdata
    obtain rfl := Except.ok.inj hdata
    rw [feed_nil] at hout
    cases hout
  have hnonzero : size ≠ 0 := by
    -- the loop of `encode_chunk` does not end
    intro hzero
    rw [Chunk.encode, hzero, encodeChunk_zero chunk.header hnonempty] at hdata
    cases hdata
  refine ⟨hnonempty, hnonzero, ?_, hannounces⟩
  by_contra hcond
  rw [not_or, Nat.not_le] at hcond
  obtain ⟨hlong, hstamp⟩ := hcond
  obtain ⟨received, hreceived, hmessage⟩ := List.map_eq_singleton_iff.1 hout
  have hpayload : received.payload.length = chunk.payload.length :=
    congrArg (fun msg : Message => msg.payload.length) hmessage
  have hread := (inRange_readSize hn size).1
  by_cases hrange : InRange size
  · -- an extended timestamp in more than one chunk
    have hsame : readSize n size = size := if_pos hrange
    rw [hsame] at hlong hsize hread
    have hextended : 0xFFFFFF ≤ chunk.header.timestamp.toNat :=
      Nat.not_lt.1 fun hlt => hstamp ⟨hrange, hlt⟩
    have hcsid : chunk.header.chunkStreamId.toNat < 64 :=
      hchunk.stamp.resolve_left (Nat.not_lt.2 hextended)
    exact feed_extended_lost ⟨hchunk.csid.1, hcsid⟩ hchunk.length hchunk.payload hread hextended hlong
      hs hsize hidle hdata hreceived hpayload
  · -- one chunk for the sender, more than one for the receiver
    have hlarge : chunk.payload.length ≤ size.toNat := by
      have hmax := hchunk.payload
      have hpos : size.toNat ≠ 0 := by
        rwa [ne_eq, ← UInt32.toNat_inj] at hnonzero
      unfold InRange at hrange
      omega
    exact feed_unsplit_lost hchunk.csid hchunk.length hchunk.payload hread hlong hs hsize hidle hlarge
      hdata hreceived hpayload

end Exact

section Agreement

variable {policy policy' : GrowthPolicy} {handshake handshake' : Handshake} {size : UInt32}
  {calls later : List SenderCall}

theorem sent_request (calls later : List SenderCall) (size : UInt32) :
    (calls ++ .setChunkSize size :: later).flatMap SenderCall.sent =
      calls.flatMap SenderCall.sent ++
        setChunkSizeMessage size :: later.flatMap SenderCall.sent := by
  rw [List.flatMap_append, List.flatMap_cons]
  rfl

/-- **If all that is sent behind the request is carried, the two sides agree.** -/
theorem agreesOn_of_carried (hdone : handshake'.isDone = true)
    (hcalls : ∀ call ∈ calls, call.Valid) (hlater : ∀ call ∈ later, call.Sends)
    (hsize : size.toNat < 2 ^ 31)
    (hcarried : ∀ msg ∈ later.flatMap SenderCall.sent,
      Carried (lastInRange 128 (calls.flatMap SenderCall.sent)) size msg) :
    AgreesOn (Session.established policy handshake) (Session.established policy' handshake') size calls
      later := by
  obtain ⟨bytes, hdecodes, hrange, hrun⟩ := SenderCall.run_request policy handshake hcalls size
  generalize hn' : lastInRange 128 (calls.flatMap SenderCall.sent) = n at hdecodes hcarried
  have hn : InRange n := hn' ▸ inRange_lastInRange (by decide) _
  rw [lastInRange_setChunkSizeMessage n hsize] at hdecodes
  have hchunks := SenderCall.expressible_of_mem hlater
  have hcarried' := SenderCall.forall_encoded hcarried
  obtain ⟨es, hes⟩ := exists_encode hcarried'
  obtain ⟨s, hs, hs'⟩ := (hrun later hlater).2 es hes
  have hall := decodes_carried hn hchunks hcarried' hes hdecodes
  rw [SenderCall.map_message_flatMap, List.append_assoc, List.singleton_append] at hall
  refine ⟨s, bytes ++ es.flatten, hs, fun reads hreads => ?_⟩
  rw [← hreads] at hall
  rw [hs', sent_request]
  have hann := announced_of_lt hsize
  have hafter : ∀ m ∈ later.flatMap SenderCall.sent, ∀ value, announced m = some value →
      value = size := fun m hm => (hcarried m hm).announces
  by_cases hin : InRange size
  · rw [readSize, if_pos hin] at hall
    exact Session.agrees_inRange hdone hin hann hrange hafter hall
  · rw [readSize, if_neg hin] at hall hdecodes
    obtain ⟨pieces, rfl, hpieces⟩ := exists_alone hin hchunks hcarried' hes
    refine Session.agrees_resized hdone hin hann hrange hafter hdecodes hpieces ?_ ?_ ?_ ?_ hall
    · rw [List.map_map, ← SenderCall.map_message_flatMap]
      rfl
    · intro decoded hdecoded
      obtain ⟨chunk, hchunk, rfl⟩ := List.mem_map.1 hdecoded
      exact (hcarried' chunk hchunk).length_le_readSize hin
    · intro decoded hdecoded
      obtain ⟨chunk, hchunk, rfl⟩ := List.mem_map.1 hdecoded
      exact (hcarried' chunk hchunk).length_le hin (hchunks chunk hchunk)
    · rw [hreads, List.flatMap_def]

/-- What agreement says of one read of everything: all is received, and the last chunk size that is
announced in it is the one that was asked for. -/
theorem AgreesOn.one_read (hdone : handshake'.isDone = true)
    (h : AgreesOn (Session.established policy handshake) (Session.established policy' handshake') size
      calls later) {bytes : List UInt8}
    (hrun : (∀ r, SenderCall.runAll (Session.established policy handshake)
          (calls ++ .setChunkSize size :: later ++ [.drain]) = .ok r →
        ∃ es : List (List UInt8),
          (later.flatMap SenderCall.encoded).map (Chunk.encode size) = es.map .ok) ∧
      ∀ es : List (List UInt8),
        (later.flatMap SenderCall.encoded).map (Chunk.encode size) = es.map .ok →
        ∃ s, SenderCall.runAll (Session.established policy handshake)
            (calls ++ .setChunkSize size :: later ++ [.drain]) = .ok (s, bytes ++ es.flatten) ∧
          s.outChunkSize = size) :
    let all := (calls ++ .setChunkSize size :: later).flatMap SenderCall.sent
    (∃ es : List (List UInt8),
      (later.flatMap SenderCall.encoded).map (Chunk.encode size) = es.map .ok ∧
      (chunkDecoder.feed (fresh 128) (bytes ++ es.flatten)).2.map Chunk.message = all) ∧
    (all.filterMap announced).getLastD (lastInRange 128 all) = size := by
  intro all
  obtain ⟨s, drained, hs, hreads⟩ := h
  obtain ⟨es, hes⟩ := hrun.1 _ hs
  obtain ⟨s', hs', hsize⟩ := hrun.2 es hes
  obtain ⟨rfl, rfl⟩ := Prod.mk.inj (Except.ok.inj (hs.symm.trans hs'))
  obtain ⟨hmessages, hchunkSize⟩ := hreads [bytes ++ es.flatten] (by simp)
  obtain ⟨hfeed, hlast⟩ := Session.processAll_single policy' hdone (bytes ++ es.flatten)
  have hcount : (calls.flatMap SenderCall.sent).length < all.length := by
    change _ < ((calls ++ .setChunkSize size :: later).flatMap SenderCall.sent).length
    rw [sent_request, List.length_append, List.length_cons]
    omega
  have hagree := hchunkSize [bytes ++ es.flatten] [] rfl (by rw [hmessages]; exact hcount)
  rw [hlast, hmessages, hsize] at hagree
  exact ⟨⟨es, hes, by rw [← hfeed, hmessages]⟩, hagree⟩

/-- **If the two sides agree at any time, all that is sent behind the request is carried.** -/
theorem carried_of_agreesOn (hdone : handshake'.isDone = true)
    (hcalls : ∀ call ∈ calls, call.Valid) (hlater : ∀ call ∈ later, call.Sends)
    (h : ∀ sends, sends <+: later → AgreesOn (Session.established policy handshake)
      (Session.established policy' handshake') size calls sends) :
    size.toNat < 2 ^ 31 ∧ ∀ msg ∈ later.flatMap SenderCall.sent,
      Carried (lastInRange 128 (calls.flatMap SenderCall.sent)) size msg := by
  obtain ⟨bytes, hdecodes, hrange, hrun⟩ := SenderCall.run_request policy handshake hcalls size
  have hsize : size.toNat < 2 ^ 31 := by
    -- the receiver ends with the number that is announced
    have hlast := ((h [] (List.nil_prefix)).one_read hdone (hrun [] (by simp))).2
    have hall : (calls ++ [SenderCall.setChunkSize size]).flatMap SenderCall.sent
        = calls.flatMap SenderCall.sent ++ [setChunkSizeMessage size] := sent_request calls [] size
    rw [hall, getLastD_announced (announced_setChunkSizeMessage size) _ (by simp)] at hlast
    rw [← hlast, toNat_and_mask31]
    exact Nat.mod_lt _ (by decide)
  refine ⟨hsize, ?_⟩
  generalize hn' : lastInRange 128 (calls.flatMap SenderCall.sent) = n at hdecodes ⊢
  have hn : InRange n := hn' ▸ inRange_lastInRange (by decide) _
  rw [lastInRange_setChunkSizeMessage n hsize] at hdecodes
  induction later using List.reverseRecOn with
  | nil => simp
  | append_singleton later call ih =>
      have hcall := hlater call (by simp)
      have hbefore := ih (fun c hc => hlater c (List.mem_append_left _ hc)) fun sends hpre =>
        h sends (hpre.trans (List.prefix_append _ _))
      rcases hcall.run_eq (Session.established policy handshake) with rfl | ⟨chunk, hchunk, -⟩
      · rw [List.flatMap_append, List.flatMap_singleton]
        simpa [SenderCall.sent] using hbefore
      · have hsent : call.sent = [chunk.message] := by
          rw [← SenderCall.map_message_encoded, hchunk, List.map_singleton]
        obtain ⟨⟨es, hes, hfeed⟩, hlast⟩ :=
          (h (later ++ [call]) List.prefix_rfl).one_read hdone (hrun _ hlater)
        rw [List.flatMap_append, List.flatMap_singleton, hchunk, List.map_append] at hes
        obtain ⟨before, last, rfl, hb, hl⟩ := List.map_eq_append_iff.1 hes.symm
        obtain ⟨data, rfl, hdata⟩ := List.map_eq_singleton_iff.1 hl
        -- what is sent before this message is decoded
        obtain ⟨pieces, chunks, core, hbytes, -, hwhole, hidle, hcore, hout⟩ :=
          decodes_carried hn (SenderCall.expressible_of_mem fun c hc =>
            hlater c (List.mem_append_left _ hc)) (SenderCall.forall_encoded hbefore) hb.symm hdecodes
        have hall : (calls ++ .setChunkSize size :: (later ++ [call])).flatMap SenderCall.sent
            = calls.flatMap SenderCall.sent ++ [setChunkSizeMessage size] ++
                later.flatMap SenderCall.sent ++ [chunk.message] := by
          rw [sent_request, List.flatMap_append, List.flatMap_singleton, hsent]
          simp
        -- so what the parser makes of the rest is this message
        have hrest := hwhole.run.feed [] ((bytes ++ before.flatten) ++ data) data (by
          rw [hbytes, List.nil_append])
        rw [List.flatten_append, List.flatten_singleton, ← List.append_assoc] at hfeed
        change (chunkDecoder.feed ((fresh 128).1, []) _).2.map Chunk.message = _ at hfeed
        rw [hrest, hall, List.map_append, hout, SenderCall.map_message_flatMap,
          List.append_cancel_left_eq] at hfeed
        have hannounces : ∀ value, announced chunk.message = some value → value = size := by
          intro value hann
          rw [hall, getLastD_announced hann _ (by simp)] at hlast
          exact hlast
        have hcarried := Carried.of_feed ((Sane.new 128).run hwhole.run) hidle hn hcore
          (hcall.expressible chunk (by rw [hchunk]; exact List.mem_singleton_self _)) hdata.symm hfeed
          hannounces
        rw [List.flatMap_append, List.flatMap_singleton, hsent]
        intro msg hmsg
        rcases List.mem_append.1 hmsg with hmsg | hmsg
        · exact hbefore msg hmsg
        · rw [List.mem_singleton.1 hmsg]
          exact hcarried

/-- **The two sides agree at any time exactly if the size has 31 bits and every message sent behind the
request is carried.** -/
theorem agreesOn_iff (policy policy' : GrowthPolicy) (handshake : Handshake) {handshake' : Handshake}
    (hdone : handshake'.isDone = true) {calls later : List SenderCall}
    (hcalls : ∀ call ∈ calls, call.Valid) (hlater : ∀ call ∈ later, call.Sends) (size : UInt32) :
    (∀ sends, sends <+: later → AgreesOn (Session.established policy handshake)
      (Session.established policy' handshake') size calls sends) ↔
    size.toNat < 2 ^ 31 ∧ ∀ msg ∈ later.flatMap SenderCall.sent,
      Carried (lastInRange 128 (calls.flatMap SenderCall.sent)) size msg := by
  constructor
  · exact carried_of_agreesOn hdone hcalls hlater
  · rintro ⟨hsize, hcarried⟩ sends ⟨rest, rfl⟩
    refine agreesOn_of_carried hdone hcalls (fun c hc => hlater c (List.mem_append_left _ hc)) hsize ?_
    intro msg hmsg
    refine hcarried msg ?_
    rw [List.flatMap_append]
    exact List.mem_append_left _ hmsg

end Agreement

/-- A chunk size of 32 MiB: what comes behind it is short enough for the 128 bytes of before. -/
theorem agreesOn_32MiB :
    AgreesOn (Session.established .exact {}) (Session.established .exact { state := .done })
      0x2000000 [.message ⟨8, 5, 1, [1, 2]⟩]
      [.message ⟨9, 0x1000000, 1, [3]⟩, .drain, .command ⟨[97], 0, []⟩ 300] := by
  refine (agreesOn_iff .exact .exact {} (by decide) (by decide) (by decide) 0x2000000).2
    ⟨by decide, fun msg hmsg => ?_⟩ _ List.prefix_rfl
  have hnone : announced msg = none := by
    refine if_neg ?_
    rcases List.mem_pair.1 hmsg with rfl | rfl <;> decide
  refine ⟨?_, by decide, .inl ?_, by simp [hnone]⟩
  · rcases List.mem_pair.1 hmsg with rfl | rfl <;> decide
  · rcases List.mem_pair.1 hmsg with rfl | rfl <;> decide

/-- **A chunk size of 0 is sent, and nothing can be sent behind it.** -/
theorem not_agreesOn_zero :
    ¬ ∀ (policy policy' : GrowthPolicy) (handshake handshake' : Handshake) (size : UInt32)
      (calls later : List SenderCall), handshake'.isDone = true → (∀ call ∈ calls, call.Valid) →
      (∀ call ∈ later, call.Sends) →
      AgreesOn (Session.established policy handshake) (Session.established policy' handshake') size calls
        later := by
  intro h
  obtain ⟨s, bytes, hrun, -⟩ := h .exact .exact {} { state := .done } 0 []
    [.message ⟨8, 0, 1, [1]⟩] (by decide) (by decide) (by decide)
  have herror : SenderCall.runAll (Session.established .exact {})
      [.setChunkSize 0, .message ⟨8, 0, 1, [1]⟩, .drain] = .error .outOfFuel := rfl
  cases herror.symm.trans hrun

end Rtmp
