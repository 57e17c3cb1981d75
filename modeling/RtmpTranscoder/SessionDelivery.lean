/-
**From session to session.**

A sending session encodes messages, commands and control messages one behind the other and changes
its chunk size on the way; a receiving session gets the bytes in reads whose boundaries have nothing
to do with the messages.  This module shows that the messages arrive as they were sent.

The invariant connects the two ends: what has been drained and what is still in the outgoing buffer
are together whole chunks, which leave a fresh parser between messages on every chunk stream and
with the chunk size that the sender uses from then on.  Two facts about the receiving end are then
enough.  The encoder writes headers of format 0 and 3 only, which carry no timestamp difference, so
that no cut can be observed; and every chunk size that is announced is in range, so that it does not
matter that the session applies it a second time.

Main definitions:

* `Rtmp.SenderCall` — the calls on the sender, with `run`, `Valid` and `sent`;
* `Rtmp.InTransit` — the joint invariant of the sender and of the bytes on their way.

Main results:

* `Rtmp.InTransit.sendMessage`, `Rtmp.InTransit.run` — every call keeps the invariant;
* `Rtmp.WholeChunks.quietEnd` — what is cut off from such chunks ends quietly;
* `Rtmp.session_delivery` — **exactly the sent messages are received**, however the bytes are cut.
-/

import RtmpTranscoder.ChunkSegments
import RtmpTranscoder.SessionChunkSize

set_option relaxedAutoImplicit false
set_option autoImplicit false

namespace Rtmp

open Incremental

/-! ### The sender -/

/-- A call on the sending session. -/
inductive SenderCall where
  | message (msg : Message)
  | command (cmd : CommandMessage) (chunkStreamId : UInt32)
  | windowAckSize (size : UInt32)
  | setPeerBandwidth (size : UInt32) (limitType : UInt8)
  | setChunkSize (size : UInt32)
  | drain

namespace SenderCall

/-- The session after the call, and the bytes that are drained by it. -/
def run (s : Session) : SenderCall → Except Failure (Session × List UInt8)
  | .message msg => (s.sendMessage msg).map fun s => (s, [])
  | .command cmd chunkStreamId => (s.sendCommand cmd chunkStreamId).map fun s => (s, [])
  | .windowAckSize size => (s.sendWindowAckSize size).map fun s => (s, [])
  | .setPeerBandwidth size limitType => (s.sendSetPeerBandwidth size limitType).map fun s => (s, [])
  | .setChunkSize size => (s.sendSetChunkSize size).map fun s => (s, [])
  | .drain => .ok s.getOutgoingData

/-- A list of calls. -/
def runAll (s : Session) : List SenderCall → Except Failure (Session × List UInt8)
  | [] => .ok (s, [])
  | call :: calls =>
      match call.run s with
      | .error f => .error f
      | .ok (s, bytes) => (runAll s calls).map fun r => (r.1, bytes ++ r.2)

/-- What the caller keeps to. -/
def Valid : SenderCall → Prop
  | .message msg =>
      msg.typeId ≠ MessageType.setChunkSize.code ∧ msg.timestamp.toNat < 0xFFFFFF ∧
        1 ≤ msg.payload.length ∧ msg.payload.length ≤ 0xFFFFFF
  | .command cmd chunkStreamId =>
      2 ≤ chunkStreamId.toNat ∧ chunkStreamId.toNat ≤ 65599 ∧ cmd.encode.length ≤ 0xFFFFFF
  | .windowAckSize _ => True
  | .setPeerBandwidth _ _ => True
  | .setChunkSize size => 1 ≤ size.toNat ∧ size.toNat ≤ 16777216
  | .drain => True

instance : DecidablePred Valid
  | .message _ => inferInstanceAs (Decidable (_ ∧ _))
  | .command _ _ => inferInstanceAs (Decidable (_ ∧ _))
  | .windowAckSize _ => inferInstanceAs (Decidable True)
  | .setPeerBandwidth _ _ => inferInstanceAs (Decidable True)
  | .setChunkSize _ => inferInstanceAs (Decidable (_ ∧ _))
  | .drain => inferInstanceAs (Decidable True)

/-- The messages that a call sends. -/
def sent : SenderCall → List Message
  | .message msg => [msg]
  | .command cmd _ => [⟨MessageType.commandAMF0.code, 0, 0, cmd.encode⟩]
  | .windowAckSize size =>
      [⟨MessageType.windowAckSize.code, 0, 0, WindowAckSizeMessage.encode ⟨size⟩⟩]
  | .setPeerBandwidth size limitType =>
      [⟨MessageType.setPeerBandwidth.code, 0, 0, SetPeerBandwidthMessage.encode ⟨size, limitType⟩⟩]
  | .setChunkSize size =>
      [⟨MessageType.setChunkSize.code, 0, 0, SetChunkSizeMessage.encode ⟨size⟩⟩]
  | .drain => []

end SenderCall

/-! ### The invariant -/

/-- The bytes are whole chunks with headers of format 0 and 3, from which a fresh parser makes the
messages `sent`; it is then between messages on every chunk stream, and its chunk size is `n`. -/
def Decodes (bytes : List UInt8) (sent : List Message) (n : UInt32) : Prop :=
  ∃ pieces chunks core, bytes = pieces.flatMap Piece.bytes ∧
    (∀ piece ∈ pieces, piece.header.Plain) ∧ WholeChunks (fresh 128).1 pieces chunks core ∧
    (∀ c, (core.streams c).bytesReceived = 0) ∧ core.chunkSize = n ∧
    chunks.map Chunk.message = sent

/-- A message whose timestamp is not extended, or that is one chunk, is encoded behind what is on its
way. -/
theorem Decodes.encodeChunk {bytes : List UInt8} {sent : List Message} {n : UInt32}
    (h : Decodes bytes sent n) (hn : 1 ≤ n.toNat) {header : ChunkHeader} {payload : List UInt8}
    (hcsid : 2 ≤ header.chunkStreamId.toNat ∧ header.chunkStreamId.toNat ≤ 65599)
    (hlen : header.messageLength.toNat = payload.length)
    (hpayload : 1 ≤ payload.length ∧ payload.length ≤ 0xFFFFFF)
    (hstamp : header.timestamp.toNat < 0xFFFFFF ∨ payload.length ≤ n.toNat) :
    ∃ data, Rtmp.encodeChunk header payload n = .ok data ∧
      Decodes (bytes ++ data) (sent ++ [Chunk.message ⟨headerOf header, payload⟩])
        (lastInRange n [Chunk.message ⟨headerOf header, payload⟩]) := by
  obtain ⟨pieces, chunks, core, rfl, hplain, hwhole, hidle, hsize, rfl⟩ := h
  have hsane : Sane core := (Sane.new 128).run hwhole.run
  obtain ⟨pieces', core', hencode, hplain', hwhole', hover⟩ := encodeChunk_run hcsid hlen hpayload
    hn hstamp hsane hsize (hidle _)
  refine ⟨_, hencode, pieces ++ pieces', chunks ++ [⟨headerOf header, payload⟩], core', ?_, ?_,
    hwhole.append hwhole', ?_, ?_, ?_⟩
  · rw [List.flatMap_append]
  · intro piece hpiece
    rcases List.mem_append.1 hpiece with hpiece | hpiece
    · exact hplain piece hpiece
    · exact hplain' piece hpiece
  · intro c
    by_cases hc : c = (headerOf header).chunkStreamId
    · rw [hc]
      exact hover.idle
    · rw [hover.others c hc, hidle]
  · rw [hover.chunkSize, receiveChunk_eq]
  · rw [List.map_append]
    rfl

theorem Decodes.encode {bytes : List UInt8} {sent : List Message} {n : UInt32}
    (h : Decodes bytes sent n) (hn : InRange n) {header : ChunkHeader} {payload : List UInt8}
    (hcsid : 2 ≤ header.chunkStreamId.toNat ∧ header.chunkStreamId.toNat ≤ 65599)
    (hlen : header.messageLength.toNat = payload.length)
    (hpayload : 1 ≤ payload.length ∧ payload.length ≤ 0xFFFFFF)
    (hstamp : header.timestamp.toNat < 0xFFFFFF) :
    ∃ data, Rtmp.encodeChunk header payload n = .ok data ∧
      Decodes (bytes ++ data) (sent ++ [Chunk.message ⟨headerOf header, payload⟩])
        (lastInRange n [Chunk.message ⟨headerOf header, payload⟩]) :=
  h.encodeChunk hn.1 hcsid hlen hpayload (.inl hstamp)

/-- **The joint invariant** of the sender and of the bytes on their way: what has been drained and
what has not been drained yet is decoded as what has been sent. -/
structure InTransit (s : Session) (drained : List UInt8) (sent : List Message) : Prop where
  buffer : s.writeBuffer.Plain
  outChunkSize : InRange s.outChunkSize
  decodes : Decodes (drained ++ s.writeBuffer.readable) sent s.outChunkSize
  announced : ∀ msg ∈ sent, ∀ size, announced msg = some size → InRange size

theorem InTransit.established (policy : GrowthPolicy) (handshake : Handshake) :
    InTransit (Session.established policy handshake) [] [] where
  buffer := Buffer.Plain.new policy
  outChunkSize := (by decide : InRange 128)
  decodes := ⟨[], [], _, rfl, by simp, .nil _, fun _ => rfl, rfl, rfl⟩
  announced := by simp

section Calls

variable {s : Session} {drained : List UInt8} {sent : List Message}

/-- Bytes that are decoded as one more message are appended to the outgoing buffer. -/
theorem InTransit.append (h : InTransit s drained sent) (header : ChunkHeader)
    (payload : List UInt8) {msg : Message} (hmsg : Chunk.message ⟨headerOf header, payload⟩ = msg)
    (hcsid : 2 ≤ header.chunkStreamId.toNat ∧ header.chunkStreamId.toNat ≤ 65599)
    (hlen : header.messageLength = UInt32.ofNat payload.length)
    (hpayload : 1 ≤ payload.length ∧ payload.length ≤ 0xFFFFFF)
    (hstamp : header.timestamp.toNat < 0xFFFFFF)
    (hrange : ∀ size, Rtmp.announced msg = some size → InRange size) :
    ∃ data, encodeChunk header payload s.outChunkSize = .ok data ∧
      InTransit
        { s with
          writeBuffer := s.writeBuffer.append data
          outChunkSize := lastInRange s.outChunkSize [msg] }
        drained (sent ++ [msg]) := by
  have hlen' : header.messageLength.toNat = payload.length := by
    rw [hlen]
    exact UInt32.toNat_ofNat_of_lt' (Nat.lt_of_le_of_lt hpayload.2 (by decide))
  obtain ⟨data, hencode, hdecodes⟩ :=
    h.decodes.encode h.outChunkSize hcsid hlen' hpayload hstamp
  rw [hmsg] at hdecodes
  refine ⟨data, hencode, h.buffer.append data, inRange_lastInRange h.outChunkSize _, ?_, ?_⟩
  · rw [h.buffer.readable_append, ← List.append_assoc]
    exact hdecodes
  · intro m hm
    rcases List.mem_append.1 hm with hm | hm
    · exact h.announced m hm
    · rw [List.mem_singleton.1 hm]
      exact hrange

/-- `send_message` keeps the invariant, up to the chunk size that the message announces. -/
theorem InTransit.sendMessage (h : InTransit s drained sent) {msg : Message}
    (hstamp : msg.timestamp.toNat < 0xFFFFFF)
    (hpayload : 1 ≤ msg.payload.length ∧ msg.payload.length ≤ 0xFFFFFF)
    (hrange : ∀ size, Rtmp.announced msg = some size → InRange size) :
    ∃ s', s.sendMessage msg = .ok s' ∧
      InTransit { s' with outChunkSize := lastInRange s.outChunkSize [msg] } drained
        (sent ++ [msg]) ∧ s'.outChunkSize = s.outChunkSize := by
  obtain ⟨data, hencode, h'⟩ := h.append (Session.messageHeader msg) msg.payload (rfl : _ = msg)
    (Session.messageHeader_chunkStreamId msg) rfl hpayload hstamp hrange
  refine ⟨{ s with writeBuffer := s.writeBuffer.append data }, ?_, h', rfl⟩
  rw [Session.sendMessage, hencode]
  rfl

theorem InTransit.sendMessage_of_none (h : InTransit s drained sent) {msg : Message}
    (hstamp : msg.timestamp.toNat < 0xFFFFFF)
    (hpayload : 1 ≤ msg.payload.length ∧ msg.payload.length ≤ 0xFFFFFF)
    (hnone : Rtmp.announced msg = none) :
    ∃ s', s.sendMessage msg = .ok s' ∧ InTransit s' drained (sent ++ [msg]) := by
  obtain ⟨s', hs', h', hsize⟩ := h.sendMessage hstamp hpayload (by simp [hnone])
  refine ⟨s', hs', ?_⟩
  have hlast : lastInRange s.outChunkSize [msg] = s'.outChunkSize := by
    simp [lastInRange, hnone, hsize]
  rwa [hlast] at h'

/-- `send_set_chunk_size` keeps the invariant: both sides go over to the new chunk size. -/
theorem InTransit.sendSetChunkSize (h : InTransit s drained sent) {size : UInt32}
    (hsize : InRange size) :
    ∃ s', s.sendSetChunkSize size = .ok s' ∧ InTransit s' drained
      (sent ++ [⟨MessageType.setChunkSize.code, 0, 0, SetChunkSizeMessage.encode ⟨size⟩⟩]) := by
  generalize hmsg : (⟨MessageType.setChunkSize.code, 0, 0, SetChunkSizeMessage.encode ⟨size⟩⟩ :
    Message) = msg
  have hann : Rtmp.announced msg = some size := by
    have hbits : size.toNat < 2 ^ 31 := by
      have := hsize.2
      omega
    rw [← hmsg, Rtmp.announced, if_pos rfl, SetChunkSizeMessage.parse_encode hbits]
    rfl
  have hlast : lastInRange s.outChunkSize [msg] = size := by
    simp [lastInRange, hann, hsize]
  obtain ⟨s', hs', h', -⟩ := @InTransit.sendMessage s drained sent h msg (by simp [← hmsg])
    (by simp [← hmsg]) (by simp [hann, hsize])
  refine ⟨{ s' with outChunkSize := size }, ?_, by rwa [hlast] at h'⟩
  rw [Session.sendSetChunkSize, hmsg, hs']
  rfl

/-- `send_command` keeps the invariant. -/
theorem InTransit.sendCommand (h : InTransit s drained sent) {cmd : CommandMessage}
    {chunkStreamId : UInt32} (hcsid : 2 ≤ chunkStreamId.toNat ∧ chunkStreamId.toNat ≤ 65599)
    (hlen : cmd.encode.length ≤ 0xFFFFFF) :
    ∃ s', s.sendCommand cmd chunkStreamId = .ok s' ∧ InTransit s' drained
      (sent ++ [⟨MessageType.commandAMF0.code, 0, 0, cmd.encode⟩]) := by
  obtain ⟨data, hencode, h'⟩ := h.append (Session.commandHeader cmd.encode chunkStreamId)
    cmd.encode rfl hcsid rfl ⟨cmd.length_encode_pos, hlen⟩ (by decide : (0 : UInt32).toNat < _)
    (by simp [Rtmp.announced, Chunk.message, headerOf, Session.commandHeader, MessageType.code])
  refine ⟨_, ?_, h'⟩
  rw [Session.sendCommand, hencode]
  rfl

theorem InTransit.drain (h : InTransit s drained sent) :
    InTransit s.getOutgoingData.1 (drained ++ s.getOutgoingData.2) sent where
  buffer := Buffer.plain_clear _
  outChunkSize := h.outChunkSize
  decodes := by
    simp only [Session.getOutgoingData, Buffer.readable_clear, List.append_nil]
    exact h.decodes
  announced := h.announced

/-- **Every call keeps the invariant.** -/
theorem InTransit.run (h : InTransit s drained sent) {call : SenderCall} (hv : call.Valid) :
    ∃ s' bytes, call.run s = .ok (s', bytes) ∧
      InTransit s' (drained ++ bytes) (sent ++ call.sent) := by
  -- a call that sends drains nothing
  have hsend : ∀ {r : Except Failure Session} {sent' : List Message},
      (∃ s', r = .ok s' ∧ InTransit s' drained sent') →
      ∃ s' bytes, (r.map fun s => (s, ([] : List UInt8))) = .ok (s', bytes) ∧
        InTransit s' (drained ++ bytes) sent' := by
    rintro r sent' ⟨s', rfl, h'⟩
    exact ⟨s', [], rfl, by rwa [List.append_nil]⟩
  cases call with
  | message msg =>
      obtain ⟨htype, hstamp, hpayload⟩ := hv
      exact hsend (h.sendMessage_of_none hstamp hpayload (if_neg htype))
  | command cmd chunkStreamId => exact hsend (h.sendCommand ⟨hv.1, hv.2.1⟩ hv.2.2)
  | windowAckSize size =>
      exact hsend (h.sendMessage_of_none (by simp) (by simp) (if_neg (by simp [MessageType.code])))
  | setPeerBandwidth size limitType =>
      exact hsend (h.sendMessage_of_none (by simp) (by simp) (if_neg (by simp [MessageType.code])))
  | setChunkSize size => exact hsend (h.sendSetChunkSize hv)
  | drain =>
      refine ⟨_, _, rfl, ?_⟩
      rw [SenderCall.sent, List.append_nil]
      exact h.drain

theorem InTransit.runAll {calls : List SenderCall} (h : InTransit s drained sent)
    (hv : ∀ call ∈ calls, call.Valid) :
    ∃ s' bytes, SenderCall.runAll s calls = .ok (s', bytes) ∧
      InTransit s' (drained ++ bytes) (sent ++ calls.flatMap SenderCall.sent) := by
  induction calls generalizing s drained sent with
  | nil => exact ⟨s, [], rfl, by simpa using h⟩
  | cons call calls ih =>
      obtain ⟨s₁, bytes₁, hrun, h₁⟩ := h.run (hv call List.mem_cons_self)
      obtain ⟨s₂, bytes₂, hrest, h₂⟩ := ih h₁ fun c hc => hv c (List.mem_cons_of_mem _ hc)
      refine ⟨s₂, bytes₁ ++ bytes₂, ?_, ?_⟩
      · simp only [SenderCall.runAll, hrun, hrest]
        rfl
      · rw [List.flatMap_cons, ← List.append_assoc, ← List.append_assoc]
        exact h₂

end Calls

theorem SenderCall.runAll_append (s : Session) (calls more : List SenderCall) :
    SenderCall.runAll s (calls ++ more) =
      match SenderCall.runAll s calls with
      | .error f => .error f
      | .ok r => (SenderCall.runAll r.1 more).map fun q => (q.1, r.2 ++ q.2) := by
  induction calls generalizing s with
  | nil =>
      simp only [List.nil_append, SenderCall.runAll]
      cases SenderCall.runAll s more <;> rfl
  | cons call calls ih =>
      simp only [List.cons_append, SenderCall.runAll]
      cases call.run s with
      | error f => rfl
      | ok r =>
          simp only [ih]
          cases SenderCall.runAll r.1 calls with
          | error f => rfl
          | ok r' =>
              simp only [Except.map]
              cases SenderCall.runAll r'.1 more <;> simp

theorem SenderCall.runAll_drain (s : Session) (calls : List SenderCall) :
    SenderCall.runAll s (calls ++ [.drain]) =
      (SenderCall.runAll s calls).map fun r =>
        (r.1.getOutgoingData.1, r.2 ++ r.1.getOutgoingData.2) := by
  rw [SenderCall.runAll_append]
  cases SenderCall.runAll s calls with
  | error f => rfl
  | ok r => simp [SenderCall.runAll, SenderCall.run, Except.map]

/-! ### The receiver -/

theorem WireHeader.fmt_eq_of_append {w q : WireHeader} {xs ys : List UInt8}
    (h : w.bytes ++ xs = q.bytes ++ ys) : w.message.fmt = q.message.fmt := by
  obtain ⟨b, hb, hfmt, -⟩ := w.basic.parse_bytes w.message.toNat_fmt_lt (w.message.bytes ++ xs)
  obtain ⟨b', hb', hfmt', -⟩ := q.basic.parse_bytes q.message.toNat_fmt_lt (q.message.bytes ++ ys)
  rw [← List.append_assoc, ← WireHeader.bytes] at hb hb'
  rw [h, hb'] at hb
  rw [← hfmt, ← hfmt', Except.ok.inj hb]

theorem WireHeader.Plain.delta_eq_zero {w : WireHeader} (h : w.Plain) : w.delta = 0 := by
  obtain ⟨b, m⟩ := w
  cases m with
  | fmt0 => rfl
  | fmt1 => rcases h with h | h <;> cases h
  | fmt2 => rcases h with h | h <;> cases h
  | fmt3 => rfl

/-- **What is cut off from chunks of format 0 and 3 ends quietly.** -/
theorem WholeChunks.quietEnd {core core' : ParserCore} {pieces : List Piece} {out : List Chunk}
    (h : WholeChunks core pieces out core') (hs : Sane core)
    (hplain : ∀ piece ∈ pieces, piece.header.Plain) {xs ys : List UInt8}
    (hxs : pieces.flatMap Piece.bytes = xs ++ ys) : chunkDecoder.QuietEnd (core, []) xs := by
  induction h generalizing xs ys with
  | nil core =>
      have hnil : xs = [] := (List.append_eq_nil_iff.1 hxs.symm).1
      have hwait := chunkStep_nil core
      subst hnil
      intro zs
      simp only [List.append_nil, chunkDecoder.drain_wait hwait, chunkDecoder.settle_eq hwait]
  | @cons core core' piece pieces out hfit hp _ ih =>
      have hunit := chunkStep_unit hfit hp
      rw [← Piece.bytes] at hunit
      rw [List.flatMap_cons] at hxs
      have hpre : xs <+: piece.bytes ++ pieces.flatMap Piece.bytes := ⟨ys, hxs.symm⟩
      rcases Nat.lt_or_ge xs.length piece.bytes.length with hlt | hge
      · -- the chunk is cut, so the decoder waits
        obtain ⟨tail, htail⟩ :=
          List.prefix_of_prefix_length_le hpre (List.prefix_append ..) (Nat.le_of_lt hlt)
        obtain ⟨s, hstep⟩ := exists_wait_of_cut hfit hp htail.symm hlt
        intro zs
        simp only [List.nil_append, chunkDecoder.drain_wait hstep, chunkDecoder.settle_eq hstep]
        rcases chunkStep_wait hstep with ⟨-, heq⟩ | ⟨w, payload, hfit', rfl, -, rfl⟩
        · rw [heq]
        · -- the format of the header is the one that was written
          have hfmt : w.message.fmt = piece.header.message.fmt := by
            refine @WireHeader.fmt_eq_of_append _ _ (payload ++ tail) piece.payload ?_
            rw [← List.append_assoc, htail, Piece.bytes]
          have hw : w.Plain := by
            have := hplain piece List.mem_cons_self
            rwa [WireHeader.Plain, ← hfmt] at this
          rw [List.append_assoc]
          exact quiet_of_delta_eq_zero hs hfit' hw.delta_eq_zero (payload ++ zs)
      · -- the chunk is there, and the cut is behind it
        obtain ⟨xs', rfl⟩ :=
          List.prefix_of_prefix_length_le (List.prefix_append ..) hpre hge
        rw [List.append_assoc, List.append_cancel_left_eq] at hxs
        have hquiet := ih (hs.collect hp) (fun q hq => hplain q (List.mem_cons_of_mem _ hq)) hxs
        have htake := chunkDecoder.take_append hunit xs'
        intro zs
        have := hquiet zs
        simp only [List.nil_append] at this ⊢
        rw [chunkDecoder.drain_take htake, List.drop_left]
        exact this

/-- However the first part of bytes that are decoded as messages is cut, a fresh parser makes of it what
it makes of it in one read. -/
theorem Decodes.feedAll_flatten {bytes : List UInt8} {sent : List Message} {n : UInt32}
    (h : Decodes bytes sent n) {reads : List (List UInt8)} (hreads : reads.flatten <+: bytes) :
    chunkDecoder.feedAll (fresh 128) reads = chunkDecoder.feed (fresh 128) reads.flatten := by
  obtain ⟨pieces, chunks, core, rfl, hplain, hwhole, -, -, -⟩ := h
  obtain ⟨tail, htail⟩ := hreads
  refine chunkDecoder.feedAll_flatten (feed_nil (fresh 128).1) fun r₁ r₂ hr _ => ?_
  refine @WholeChunks.quietEnd _ _ _ _ hwhole (Sane.new 128) hplain _ (r₂.flatten ++ tail) ?_
  rw [← htail, hr, List.flatten_append, List.append_assoc]

/-- Bytes that are decoded as messages are decoded so however they are cut. -/
theorem Decodes.feedAll {reads : List (List UInt8)} {sent : List Message} {n : UInt32}
    (h : Decodes reads.flatten sent n) :
    (chunkDecoder.feedAll (fresh 128) reads).2.map Chunk.message = sent := by
  have hcuts := h.feedAll_flatten List.prefix_rfl
  obtain ⟨pieces, chunks, core, hbytes, -, hwhole, -, -, rfl⟩ := h
  rw [hcuts, hbytes, feed_chunks hwhole.run]

/-- **Exactly the sent messages are received.**  For every list of calls on a fresh sender, with
draining at any points and once more at the end, the calls succeed, and a fresh receiver behind its
handshake that gets the drained bytes, cut in any way, calls its callback with the messages that
were sent, in order. -/
theorem session_delivery (policy policy' : GrowthPolicy) (handshake : Handshake)
    {handshake' : Handshake} (hdone : handshake'.isDone = true) {calls : List SenderCall}
    (hvalid : ∀ call ∈ calls, call.Valid) :
    ∃ sender bytes,
      SenderCall.runAll (Session.established policy handshake) (calls ++ [.drain])
        = .ok (sender, bytes) ∧
      ∀ reads : List (List UInt8), reads.flatten = bytes →
        ((Session.established policy' handshake').processAll reads).2
          = calls.flatMap SenderCall.sent := by
  obtain ⟨s, bytes, hrun, h⟩ := (InTransit.established policy handshake).runAll hvalid
  rw [List.nil_append] at h
  refine ⟨s.getOutgoingData.1, bytes ++ s.getOutgoingData.2, ?_, fun reads hreads => ?_⟩
  · rw [SenderCall.runAll_drain, hrun]
    rfl
  · have hdecodes : Decodes reads.flatten (calls.flatMap SenderCall.sent) s.outChunkSize := by
      rw [hreads]
      exact h.decodes
    -- the parser of the receiver is a fresh one
    have hmessages : (chunkDecoder.feedAll
        ((Session.established policy' handshake').parser.toParserCore,
          (Session.established policy' handshake').parser.buffer) reads).2.map Chunk.message
        = calls.flatMap SenderCall.sent := hdecodes.feedAll
    have hinput := @Session.processAll_of_inRange (Session.established policy' handshake') hdone
      reads (by rw [hmessages]; exact h.announced)
    rw [hinput]
    exact hmessages

/-- A chunk size of 1, an audio message that takes two chunks then, and a command on the chunk
stream 300. -/
theorem session_delivery_small_chunks :
    ∃ sender bytes,
      SenderCall.runAll (Session.established .exact {})
          ([.setChunkSize 1, .message ⟨8, 5, 1, [1, 2]⟩, .drain, .command ⟨[97], 0, []⟩ 300] ++
            [.drain])
        = .ok (sender, bytes) ∧
      ∀ reads : List (List UInt8), reads.flatten = bytes →
        ((Session.established .exact { state := .done }).processAll reads).2 =
          [⟨1, 0, 0, [0, 0, 0, 1]⟩, ⟨8, 5, 1, [1, 2]⟩,
            ⟨20, 0, 0, [2, 0, 1, 97, 0, 0, 0, 0, 0, 0, 0, 0, 0]⟩] :=
  session_delivery .exact .exact {} (by decide) (by decide)

end Rtmp
