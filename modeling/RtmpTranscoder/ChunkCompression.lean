/-
**Header compression, as the parser has it.**

`parse_header` keeps the previous header of each chunk stream and completes the next one from it.
This module compares what comes out with the reference of `RtmpTranscoder/HeaderCompression.lean`.

Between two messages the parser remembers the previous one, but for the two things that
`Rtmp.Memory` records: after a message opened with format 3 its timestamp is behind, and after a
header of format 2 it expects extended fields where the latest header of format 0 or 1 had one.  As
long as the extended fields are where they are expected, the parser takes every chunk as it was
sent, and the timestamp of a message is the one in the last extended field of format 3, or else the
remembered one.  So exactly those streams are decoded as they should be in which, for every message,
that timestamp is the right one.

Main definitions:

* `Rtmp.Remembers`, `Rtmp.Announces`, `Rtmp.Tracks`, `Rtmp.Receiving` — the parser against the
  reference: a remembered header, the header of a chunk, the parser between messages and in the middle
  of one;
* `Rtmp.ReadAsSent` — the parser takes the chunks as they were sent, and hands over the messages;
* `Rtmp.Emits` — one call of `parse` hands over the messages.

Main results:

* `Rtmp.opening_remembers` — what the parser makes of a header that opens a message;
* `Rtmp.message_run`, `Rtmp.messages_run` — one message, and a list of messages;
* `Rtmp.aligned_of_wholeChunks` — extended fields in other places are misread;
* `Rtmp.parse_compressed` — **the messages are decoded as sent exactly if they are aligned and
  stamped**;
* `Rtmp.repeated_difference_lost` — a difference that is not added.
-/

import RtmpTranscoder.HeaderCompression

set_option relaxedAutoImplicit false
set_option autoImplicit false

namespace Rtmp

open Incremental

/-! ### The parser against the reference -/

/-- The header `prev` is what the parser remembers of the chunk stream `c`. -/
structure Remembers (c : UInt32) (prev : ChunkHeader) (r : Reference) (mem : Memory) : Prop where
  chunkStreamId : prev.chunkStreamId = c
  timestamp : prev.timestamp = r.timestamp - mem.lag
  messageLength : prev.messageLength = r.length
  messageTypeId : prev.messageTypeId = r.typeId
  messageStreamId : prev.messageStreamId = r.streamId
  extended : prev.hasExtendedTimestamp = mem.extended

/-- The header `head` of a chunk is that of the message, but perhaps for the timestamp. -/
structure Announces (c : UInt32) (head : ChunkHeader) (r : Reference) : Prop where
  chunkStreamId : head.chunkStreamId = c
  messageLength : head.messageLength = r.length
  messageTypeId : head.messageTypeId = r.typeId
  messageStreamId : head.messageStreamId = r.streamId

section Header

variable {c : UInt32} {prev : ChunkHeader} {r : Reference} {mem : Memory} {b : BasicHeader}

/-- **What the parser makes of a header that opens a message.** -/
theorem opening_remembers {h : MessageHeader} (hb : b.csid = c) (hallowed : r.Allows h)
    (hprev : r.previous = .nothing ∨ Remembers c prev r mem) :
    Remembers c (WireHeader.remember ⟨b, h⟩ prev) (r.opened h) (mem.opened r h) ∧
      Announces c (WireHeader.header ⟨b, h⟩ prev) (r.opened h) ∧
      (WireHeader.header ⟨b, h⟩ prev).timestamp
        = h.field.getD ((r.opened h).timestamp - (mem.opened r h).lag) := by
  -- only format 0 may open a message when nothing has been sent
  have hknown : r.previous ≠ .nothing → Remembers c prev r mem := fun hne =>
    hprev.resolve_left hne
  cases h with
  | fmt0 stamp length typeId streamId =>
      refine ⟨⟨hb, ?_, rfl, rfl, rfl, rfl⟩, ⟨hb, rfl, rfl, rfl⟩, ?_⟩
      · exact (sub_zero _).symm
      · exact (sub_zero _).symm
  | fmt1 stamp length typeId =>
      have hp := hknown hallowed
      have htime : prev.timestamp + stamp.value = r.timestamp + stamp.value - mem.lag := by
        rw [hp.timestamp, sub_add_eq_add_sub]
      exact ⟨⟨hb, htime, rfl, rfl, hp.messageStreamId, rfl⟩,
        ⟨hb, rfl, rfl, hp.messageStreamId⟩, htime⟩
  | fmt2 stamp =>
      have hp := hknown hallowed
      have htime : prev.timestamp + stamp.value = r.timestamp + stamp.value - mem.lag := by
        rw [hp.timestamp, sub_add_eq_add_sub]
      exact ⟨⟨hp.chunkStreamId, htime, hp.messageLength, hp.messageTypeId, hp.messageStreamId,
        hp.extended⟩, ⟨hb, hp.messageLength, hp.messageTypeId, hp.messageStreamId⟩, htime⟩
  | fmt3 ext =>
      obtain ⟨⟨d, hd⟩, -⟩ := hallowed
      have hp := hknown (by rw [hd]; exact Previous.noConfusion)
      have htime : prev.timestamp
          = r.timestamp + r.lastDifference - (mem.lag + r.lastDifference) := by
        rw [hp.timestamp, add_sub_add_right_eq_sub]
      refine ⟨⟨hp.chunkStreamId, htime, hp.messageLength, hp.messageTypeId, hp.messageStreamId,
        hp.extended⟩, ?_, ?_⟩
      · cases ext <;> exact ⟨hp.chunkStreamId, hp.messageLength, hp.messageTypeId,
          hp.messageStreamId⟩
      · cases ext with
        | none => exact htime
        | some v => rfl

theorem continuation_remembers {ext : Option UInt32} (hp : Remembers c prev r mem) :
    Remembers c (WireHeader.remember ⟨b, .fmt3 ext⟩ prev) r mem ∧
      Announces c (WireHeader.header ⟨b, .fmt3 ext⟩ prev) r ∧
      (WireHeader.header ⟨b, .fmt3 ext⟩ prev).timestamp
        = ext.getD (r.timestamp - mem.lag) := by
  refine ⟨hp, ?_, ?_⟩
  · cases ext <;> exact ⟨hp.chunkStreamId, hp.messageLength, hp.messageTypeId, hp.messageStreamId⟩
  · cases ext with
    | none => exact hp.timestamp
    | some v => rfl

end Header

/-- The parser is between messages of the chunk stream `c`. -/
structure Tracks (c : UInt32) (core : ParserCore) (r : Reference) (mem : Memory) : Prop where
  sane : Sane core
  chunkSize : core.chunkSize = r.chunkSize
  chunkSize_pos : 1 ≤ r.chunkSize.toNat
  idle : (core.streams c).bytesReceived = 0
  previous : r.previous = .nothing ∨ Remembers c (core.streams c).prevHeader r mem

/-- The parser is in the middle of a message of the chunk stream `c`, of which `received` has been
received. -/
structure Receiving (c : UInt32) (core : ParserCore) (r : Reference) (mem : Memory)
    (received : List UInt8) : Prop where
  sane : Sane core
  chunkSize : core.chunkSize = r.chunkSize
  chunkSize_pos : 1 ≤ r.chunkSize.toNat
  remembers : Remembers c (core.streams c).prevHeader r mem
  partialMessage : (core.streams c).partialMessage = received

theorem Tracks.start (c : UInt32) {n : UInt32} (hn : 1 ≤ n.toNat) :
    Tracks c (fresh n).1 (.start n) .start where
  sane := Sane.new n
  chunkSize := rfl
  chunkSize_pos := hn
  idle := rfl
  previous := .inl rfl

section Message

variable {c : UInt32} {core : ParserCore} {r : Reference} {mem : Memory}

/-- The chunk size a message leaves depends on its type and payload only. -/
theorem receiveChunk_message {head : ChunkHeader} (h : Announces c head r)
    (payload : List UInt8) (n : UInt32) (hn : n = r.chunkSize) :
    receiveChunk n ⟨head, payload⟩ = (r.resized payload).chunkSize := by
  subst hn
  rw [receiveChunk_eq, Reference.resized, lastInRange, lastInRange]
  simp only [Chunk.message, announced, h.messageTypeId, List.filterMap_cons, List.filterMap_nil]

/-- One chunk of a message: it completes the message, or leaves the parser in the middle of it. -/
theorem chunk_run {w : WireHeader} {received rest : List UInt8} (hs : Sane core)
    (hsize : core.chunkSize = r.chunkSize) (hpos : 1 ≤ r.chunkSize.toNat) (hcsid : w.csid = c)
    (hremember : Remembers c (w.remember (core.streams c).prevHeader) r mem)
    (hannounce : Announces c (w.head core) r)
    (hlength : r.length.toNat = received.length + rest.length)
    (hreceived : (core.streams c).partialMessage = received) :
    (rest.take r.chunkSize.toNat).length = (w.need core).toNat ∧
      (rest.length ≤ r.chunkSize.toNat →
        (w.collect core (rest.take r.chunkSize.toNat)).2 = [⟨w.head core, received ++ rest⟩] ∧
          Tracks c (w.collect core (rest.take r.chunkSize.toNat)).1 (r.resized (received ++ rest))
            mem) ∧
      (r.chunkSize.toNat < rest.length →
        (w.collect core (rest.take r.chunkSize.toNat)).2 = [] ∧
          Receiving c (w.collect core (rest.take r.chunkSize.toNat)).1 r mem
            (received ++ rest.take r.chunkSize.toNat)) := by
  have hown : (w.head core).chunkStreamId = w.csid := by rw [hannounce.chunkStreamId, hcsid]
  rw [← hcsid] at hreceived
  obtain ⟨hp, hlast, hmore⟩ := hs.collect_chunk hown hsize
    (by rw [hannounce.messageLength]; exact hlength) hreceived rfl
  refine ⟨hp, fun hle => ?_, fun hlt => ?_⟩
  · obtain ⟨hout, hchunkSize, hidle, hprev⟩ := hlast hle
    have hnew := receiveChunk_message hannounce (received ++ rest) _ rfl
    rw [hnew] at hchunkSize
    have hpos' : 1 ≤ (r.resized (received ++ rest)).chunkSize.toNat := by
      rw [← hnew]
      rcases receiveChunk_cases r.chunkSize ⟨w.head core, received ++ rest⟩ with heq | ⟨h0, -⟩
      · rw [heq]
        exact hpos
      · exact h0
    rw [hcsid] at hidle hprev
    refine ⟨hout, hs.collect hp, hchunkSize, hpos', hidle, .inr ?_⟩
    rw [hprev]
    exact ⟨hremember.1, hremember.2, hremember.3, hremember.4, hremember.5, hremember.6⟩
  · obtain ⟨hout, hchunkSize, hprev, hpartial⟩ := hmore hlt
    rw [hcsid] at hprev hpartial
    exact ⟨hout, hs.collect hp, hchunkSize, hpos, hprev ▸ hremember, hpartial⟩

/-- The chunks behind the first: by induction on their headers, with the parser in the middle of the
message. -/
theorem continuation_run {headers : List (BasicHeader × Option UInt32)} {received rest : List UInt8}
    (h : Receiving c core r mem received) (hrest : rest ≠ [])
    (hlength : r.length.toNat = received.length + rest.length)
    (hchunks : headers.length = chunksFor r.chunkSize.toNat rest.length)
    (hheaders : ∀ q ∈ headers, q.1.csid = c ∧ q.2.isSome = mem.extended) :
    ∃ head core' q, WholeChunks core (continuationPieces r.chunkSize.toNat headers rest)
        [⟨head, received ++ rest⟩] core' ∧
      Announces c head r ∧ Tracks c core' (r.resized (received ++ rest)) mem ∧
      headers.getLast? = some q ∧ head.timestamp = q.2.getD (r.timestamp - mem.lag) := by
  induction headers generalizing core received rest with
  | nil =>
      have hpos := List.length_pos_of_ne_nil hrest
      rw [chunksFor_eq h.chunkSize_pos hpos] at hchunks
      cases hchunks
  | cons q headers ih =>
      obtain ⟨b, ext⟩ := q
      obtain ⟨hcsid, hext⟩ := hheaders ⟨b, ext⟩ List.mem_cons_self
      have hpos := List.length_pos_of_ne_nil hrest
      have hcsid' : WireHeader.csid ⟨b, .fmt3 ext⟩ = c := hcsid
      obtain ⟨hremember, hannounce, hstamp⟩ :=
        @continuation_remembers c (core.streams c).prevHeader r mem b ext h.remembers
      have hfit : WireHeader.Fits ⟨b, .fmt3 ext⟩ core.streams := by
        change ext.isSome = (core.streams b.csid).prevHeader.hasExtendedTimestamp
        rw [hext, hcsid, h.remembers.extended]
      have hhead : WireHeader.head ⟨b, .fmt3 ext⟩ core
          = WireHeader.header ⟨b, .fmt3 ext⟩ (core.streams c).prevHeader := by
        rw [WireHeader.head, hcsid']
      rw [← hhead] at hannounce hstamp
      obtain ⟨hp, hlast, hmore⟩ := chunk_run h.sane h.chunkSize h.chunkSize_pos hcsid' hremember
        hannounce hlength h.partialMessage
      have hcount : headers.length = chunksFor r.chunkSize.toNat
          (rest.length - min r.chunkSize.toNat rest.length) := by
        rw [chunksFor_eq h.chunkSize_pos hpos, List.length_cons] at hchunks
        omega
      rcases Nat.lt_or_ge r.chunkSize.toNat rest.length with hlt | hge
      · -- more chunks follow
        obtain ⟨hout, hreceiving⟩ := hmore hlt
        have hdrop : (rest.drop r.chunkSize.toNat).length = rest.length - r.chunkSize.toNat :=
          List.length_drop
        have hjoin : received ++ rest.take r.chunkSize.toNat ++ rest.drop r.chunkSize.toNat
            = received ++ rest := by
          rw [List.append_assoc, List.take_append_drop]
        obtain ⟨head, core', q, hwhole, hann, htracks, hq, hts⟩ :=
          @ih _ _ (rest.drop r.chunkSize.toNat) hreceiving
            (by
              intro hnil
              rw [hnil, List.length_nil] at hdrop
              omega)
            (by rw [hlength, List.length_append, List.length_take, hdrop]; omega)
            (by rw [hdrop, hcount, Nat.min_eq_left hlt.le])
            fun q hq => hheaders q (List.mem_cons_of_mem _ hq)
        rw [hjoin] at hwhole htracks
        refine ⟨head, core', q, ?_, hann, htracks, ?_, hts⟩
        · exact @WholeChunks.cons_of_none _ _ ⟨⟨b, .fmt3 ext⟩, rest.take r.chunkSize.toNat⟩ _ _ hfit
            hp hout hwhole
        · rw [List.getLast?_cons, hq]
          rfl
      · -- this is the last chunk
        obtain ⟨hout, htracks⟩ := hlast hge
        have hnil : headers = [] := by
          rw [Nat.min_eq_right hge, Nat.sub_self, chunksFor_zero] at hcount
          exact List.eq_nil_of_length_eq_zero hcount
        subst hnil
        refine ⟨_, _, ⟨b, ext⟩, ?_, hannounce, htracks, rfl, hstamp⟩
        rw [← hout]
        exact @WholeChunks.single _ ⟨⟨b, .fmt3 ext⟩, rest.take r.chunkSize.toNat⟩ hfit hp

/-- The header that opens a message fits, if extended fields are where they are expected. -/
theorem opening_fits {m : WireMessage} (h : Tracks c core r mem) (hf : m.Follows c r)
    (ha : m.Aligned r mem) : WireHeader.Fits ⟨m.basic, m.opening⟩ core.streams := by
  obtain ⟨b, opening, headers, payload⟩ := m
  cases opening with
  | fmt0 => trivial
  | fmt1 => trivial
  | fmt2 => trivial
  | fmt3 ext =>
      obtain ⟨⟨d, hd⟩, hext⟩ := hf.allowed
      have hp := h.previous.resolve_left (by rw [hd]; exact Previous.noConfusion)
      have halign : mem.extended = r.extended := ha (.inl rfl)
      have hcsid : b.csid = c := hf.csid
      change ext.isSome = (core.streams b.csid).prevHeader.hasExtendedTimestamp
      rw [hcsid, hp.extended, halign, hext]

/-- **The first chunk of a message**: it is what the parser calls for, and it completes the message or
leaves the parser in the middle of it. -/
theorem opening_run {m : WireMessage} (h : Tracks c core r mem) (hf : m.Follows c r) :
    let w : WireHeader := ⟨m.basic, m.opening⟩
    let piece := m.payload.take r.chunkSize.toNat
    piece.length = (w.need core).toNat ∧ Announces c (w.head core) (r.opened m.opening) ∧
      (w.head core).timestamp
        = m.opening.field.getD ((r.opened m.opening).timestamp - (mem.opened r m.opening).lag) ∧
      (m.payload.length ≤ r.chunkSize.toNat →
        (w.collect core piece).2 = [⟨w.head core, m.payload⟩] ∧
          Tracks c (w.collect core piece).1 (r.next m) (mem.opened r m.opening)) ∧
      (r.chunkSize.toNat < m.payload.length →
        (w.collect core piece).2 = [] ∧
          Receiving c (w.collect core piece).1 (r.opened m.opening) (mem.opened r m.opening)
            piece) := by
  intro w piece
  have hcsid : w.csid = c := hf.csid
  obtain ⟨hremember, hannounce, hstamp⟩ := opening_remembers hf.csid hf.allowed h.previous
  have hhead : w.head core = w.header (core.streams c).prevHeader := by rw [WireHeader.head, hcsid]
  rw [← hhead] at hannounce hstamp
  have hempty : (core.streams c).partialMessage = [] := by
    have hreceived := h.sane.received c
    rw [h.idle] at hreceived
    exact List.eq_nil_of_length_eq_zero hreceived
  have hsize := r.chunkSize_opened m.opening
  obtain ⟨hp, hlast, hmore⟩ := @chunk_run c core (r.opened m.opening) _ w [] m.payload h.sane
    (by rw [hsize, h.chunkSize]) (by rw [hsize]; exact h.chunkSize_pos) hcsid hremember hannounce
    (by rw [hf.length, List.length_nil, Nat.zero_add]) hempty
  rw [hsize] at hp hlast hmore
  exact ⟨hp, hannounce, hstamp, hlast, hmore⟩

/-- **One message.** -/
theorem message_run {m : WireMessage} (h : Tracks c core r mem) (hf : m.Follows c r)
    (ha : m.Aligned r mem) :
    ∃ head core', WholeChunks core (m.pieces r.chunkSize.toNat) [⟨head, m.payload⟩] core' ∧
      Announces c head (r.opened m.opening) ∧ head.timestamp = m.readStamp r mem ∧
      Tracks c core' (r.next m) (mem.opened r m.opening) := by
  have hfit := opening_fits h hf ha
  obtain ⟨hp, hannounce, hstamp, hlast, hmore⟩ := opening_run h hf
  rcases Nat.lt_or_ge r.chunkSize.toNat m.payload.length with hlt | hge
  · -- more chunks follow
    obtain ⟨hout, hreceiving⟩ := hmore hlt
    have hsize := r.chunkSize_opened m.opening
    have hdrop : (m.payload.drop r.chunkSize.toNat).length
        = m.payload.length - r.chunkSize.toNat := List.length_drop
    have hne : m.continuations ≠ [] := by
      intro hnil
      have hchunks := hf.chunks
      rw [hnil, chunksFor_eq h.chunkSize_pos (by omega)] at hchunks
      cases hchunks
    obtain ⟨head, core', q, hwhole, hann, htracks, hq, hts⟩ := @continuation_run c _ _ _
      m.continuations _ (m.payload.drop r.chunkSize.toNat) hreceiving
      (by
        intro hnil
        rw [hnil, List.length_nil] at hdrop
        omega)
      (by rw [← hf.length, List.length_take, hdrop]; omega)
      (by rw [hsize, hdrop, hf.chunks])
      fun q hq => by
        rw [ha (.inr hne)]
        exact hf.continuations q hq
    rw [List.take_append_drop, hsize] at hwhole
    rw [List.take_append_drop] at htracks
    refine ⟨head, core', ?_, hann, ?_, htracks⟩
    · exact @WholeChunks.cons_of_none _ _ ⟨⟨m.basic, m.opening⟩, m.payload.take r.chunkSize.toNat⟩ _ _
        hfit hp hout hwhole
    · rw [hts, WireMessage.readStamp, WireMessage.lastField, hq]
  · -- the message is one chunk
    obtain ⟨hout, htracks⟩ := hlast hge
    have hnil : m.continuations = [] := by
      have hchunks := hf.chunks
      rw [Nat.sub_eq_zero_of_le hge, chunksFor_zero] at hchunks
      exact List.eq_nil_of_length_eq_zero hchunks
    refine ⟨_, _, ?_, hannounce, ?_, htracks⟩
    · rw [WireMessage.pieces, hnil, continuationPieces, ← hout]
      exact @WholeChunks.single _ ⟨⟨m.basic, m.opening⟩, m.payload.take r.chunkSize.toNat⟩ hfit hp
    · rw [hstamp, WireMessage.readStamp, WireMessage.lastField, hnil]
      rfl

/-- **A list of messages**: by induction on the list. -/
theorem messages_run {ms : List WireMessage} (h : Tracks c core r mem) (hms : WellFormed c r ms)
    (ha : Throughout WireMessage.Aligned r mem ms) :
    ∃ out core', WholeChunks core (wirePieces r ms) out core' ∧
      out.map Chunk.delivered = read c r mem ms := by
  induction ms generalizing core r mem with
  | nil => exact ⟨[], core, .nil core, rfl⟩
  | cons m ms ih =>
      obtain ⟨hf, hms⟩ := hms
      obtain ⟨ha, has⟩ := ha
      obtain ⟨head, core₁, hwhole, hannounce, hstamp, htracks⟩ := message_run h hf ha
      obtain ⟨out, core₂, hrest, hout⟩ := ih htracks hms has
      refine ⟨⟨head, m.payload⟩ :: out, core₂, hwhole.append hrest, ?_⟩
      rw [List.map_cons, hout, read]
      simp only [Chunk.delivered, Reference.delivered, Reference.next, Reference.resized,
        hannounce.chunkStreamId, hstamp,
        hannounce.messageLength, hannounce.messageTypeId, hannounce.messageStreamId]

/-- A message whose chunks are taken as they were sent has extended fields where they are
expected. -/
theorem aligned_of_pieces {m : WireMessage} (h : Tracks c core r mem) (hf : m.Follows c r)
    {out : List Chunk} {core' : ParserCore}
    (hwhole : WholeChunks core (m.pieces r.chunkSize.toNat) out core') : m.Aligned r mem := by
  cases hwhole with
  | cons hfit _ hrest =>
      rintro (hfmt | hne)
      · -- the first header is of format 3
        obtain ⟨b, opening, headers, payload⟩ := m
        cases opening with
        | fmt0 => cases hfmt
        | fmt1 => cases hfmt
        | fmt2 => cases hfmt
        | fmt3 ext =>
            obtain ⟨⟨d, hd⟩, hext⟩ := hf.allowed
            have hp := h.previous.resolve_left (by rw [hd]; exact Previous.noConfusion)
            have hcsid : b.csid = c := hf.csid
            have hfit' : ext.isSome = (core.streams b.csid).prevHeader.hasExtendedTimestamp := hfit
            rw [hcsid, hp.extended, hext] at hfit'
            exact hfit'.symm
      · -- the second header is
        obtain ⟨-, -, -, -, hmore⟩ := opening_run h hf
        cases hheaders : m.continuations with
        | nil => exact absurd hheaders hne
        | cons q headers =>
            obtain ⟨hcsid, hext⟩ := hf.continuations q (by rw [hheaders]; exact List.mem_cons_self)
            have hlt : r.chunkSize.toNat < m.payload.length := by
              by_contra hge
              have hchunks := hf.chunks
              rw [Nat.sub_eq_zero_of_le (not_lt.1 hge), chunksFor_zero] at hchunks
              exact hne (List.eq_nil_of_length_eq_zero hchunks)
            obtain ⟨-, hreceiving⟩ := hmore hlt
            rw [hheaders] at hrest
            cases hrest with
            | cons hfit' _ _ =>
                have hfit'' : q.2.isSome = ((WireHeader.collect ⟨m.basic, m.opening⟩ core
                    (m.payload.take r.chunkSize.toNat)).1.streams
                      q.1.csid).prevHeader.hasExtendedTimestamp := hfit'
                rw [hext, hcsid, hreceiving.remembers.extended] at hfit''
                exact hfit''.symm

/-- **Extended fields in other places are misread**: chunks that are taken as they were sent have them
where the parser expects them. -/
theorem aligned_of_wholeChunks {ms : List WireMessage} (h : Tracks c core r mem)
    (hms : WellFormed c r ms) {out : List Chunk} {core' : ParserCore}
    (hwhole : WholeChunks core (wirePieces r ms) out core') :
    Throughout WireMessage.Aligned r mem ms := by
  induction ms generalizing core r mem out with
  | nil => trivial
  | cons m ms ih =>
      obtain ⟨hf, hms⟩ := hms
      obtain ⟨out₁, core₁, out₂, hfirst, hrest, -⟩ := hwhole.of_append
      have ha := aligned_of_pieces h hf hfirst
      refine ⟨ha, ?_⟩
      obtain ⟨head, core₂, hrun, -, -, htracks⟩ := message_run h hf ha
      obtain ⟨-, rfl⟩ := hfirst.unique hrun
      exact ih htracks hms hrest

end Message

/-! ### Streams -/

def wireBytes (n : UInt32) (ms : List WireMessage) : List UInt8 :=
  (wirePieces (.start n) ms).flatMap Piece.bytes

/-- A fresh parser takes the chunks as they were sent, and hands over the messages. -/
def ReadAsSent (c n : UInt32) (ms : List WireMessage) : Prop :=
  ∃ out core, WholeChunks (fresh n).1 (wirePieces (.start n) ms) out core ∧
    out.map Chunk.delivered = decoded c (.start n) ms

/-- One call of `parse` on a fresh parser hands over the messages. -/
def Emits (c n : UInt32) (ms : List WireMessage) : Prop :=
  ∃ p consumed out, (ChunkParser.new n).parse (wireBytes n ms) = (p, consumed, .ok out) ∧
    out.map Chunk.delivered = decoded c (.start n) ms

theorem emits_iff {c n : UInt32} {ms : List WireMessage} :
    Emits c n ms ↔
      ((ChunkParser.new n).parse (wireBytes n ms)).2.2.map (List.map Chunk.delivered)
        = .ok (decoded c (.start n) ms) := by
  constructor
  · rintro ⟨p, consumed, out, hparse, hout⟩
    rw [hparse, ← hout]
    rfl
  · intro h
    cases hresult : ((ChunkParser.new n).parse (wireBytes n ms)).2.2 with
    | error f =>
        rw [hresult] at h
        cases h
    | ok out =>
        rw [hresult] at h
        exact ⟨_, _, out, by rw [← hresult], Except.ok.inj h⟩

instance (c n : UInt32) (ms : List WireMessage) : Decidable (Emits c n ms) :=
  decidable_of_iff _ emits_iff.symm

/-- **The messages are decoded as sent exactly if they are aligned and stamped.**  The parser takes
the chunks as they were sent, and hands over the messages, if and only if every message is `Aligned`
and `Stamped`; one call of `parse` then takes all bytes and hands over the messages.  When extended
fields are where the parser expects them, one call of `parse` hands over the messages if and only if
every message is `Stamped`. -/
theorem parse_compressed {c n : UInt32} (hn : 1 ≤ n.toNat) {ms : List WireMessage}
    (hms : WellFormed c (.start n) ms) :
    (ReadAsSent c n ms ↔ Throughout WireMessage.Aligned (.start n) .start ms ∧
      Throughout WireMessage.Stamped (.start n) .start ms) ∧
    (ReadAsSent c n ms → ∃ p out,
      (ChunkParser.new n).parse (wireBytes n ms) = (p, (wireBytes n ms).length, .ok out) ∧
        p.buffer = [] ∧ out.map Chunk.delivered = decoded c (.start n) ms) ∧
    (Throughout WireMessage.Aligned (.start n) .start ms →
      (Emits c n ms ↔ Throughout WireMessage.Stamped (.start n) .start ms)) := by
  have htracks := Tracks.start c hn
  have hread := read_eq_decoded_iff c (.start n) .start ms
  refine ⟨⟨?_, ?_⟩, ?_, ?_⟩
  · rintro ⟨out, core, hwhole, hout⟩
    have ha := aligned_of_wholeChunks htracks hms hwhole
    obtain ⟨out', core', hwhole', hout'⟩ := messages_run htracks hms ha
    obtain ⟨rfl, -⟩ := hwhole.unique hwhole'
    exact ⟨ha, hread.1 (hout'.symm.trans hout)⟩
  · rintro ⟨ha, hs⟩
    obtain ⟨out, core, hwhole, hout⟩ := messages_run htracks hms ha
    exact ⟨out, core, hwhole, hout.trans (hread.2 hs)⟩
  · rintro ⟨out, core, hwhole, hout⟩
    exact ⟨_, out, ChunkParser.parse_run rfl hwhole.run, rfl, hout⟩
  · intro ha
    obtain ⟨out, core, hwhole, hout⟩ := messages_run htracks hms ha
    have hparse := ChunkParser.parse_run (p := ChunkParser.new n) rfl hwhole.run
    rw [← hread, ← hout]
    constructor
    · rintro ⟨p, consumed, out', hparse', hout'⟩
      have heq := hparse.symm.trans hparse'
      simp only [Prod.mk.injEq, Except.ok.injEq] at heq
      rw [heq.2.2]
      exact hout'
    · intro hsame
      exact ⟨_, _, out, hparse, hsame⟩

def stream3 : BasicHeader := .one 3 ⟨by decide, by decide⟩

/-- Two messages of two chunks each, the second of which is opened by a header of format 2 with an
extended field.  The parser takes the four bytes of the field in its last chunk for payload.  It
hands over the messages nevertheless, since the first of these bytes is the one that is missing; the
other three and the payload are left for a chunk that does not exist. -/
example :
    let headers (ext : Option UInt32) : List (BasicHeader × Option UInt32) := [(stream3, ext)]
    let ms : List WireMessage :=
      [⟨stream3, .fmt0 (.short 0 (by decide)) ⟨4, by decide⟩ 8 1, headers none, [1, 2, 3, 4]⟩,
        ⟨stream3, .fmt2 (.extended 0x04C30000), headers (some 0x04C30000), [1, 2, 3, 4]⟩]
    WellFormed 3 (.start 3) ms ∧ ¬ Throughout WireMessage.Aligned (.start 3) .start ms ∧
      Emits 3 3 ms := by
  refine ⟨⟨⟨rfl, trivial, rfl, rfl, by simpa using ⟨rfl, rfl⟩⟩,
    ⟨rfl, Previous.noConfusion, rfl, rfl, by simpa using ⟨rfl, rfl⟩⟩, trivial⟩, ?_, by decide⟩
  rintro ⟨-, h, -⟩
  exact absurd (h (.inr (List.cons_ne_nil _ _))) (by decide)

/-- An audio message at time 100, one that is 10 later, and a third one with the header `third`. -/
def everyTen (third : MessageHeader) : List WireMessage :=
  [⟨stream3, .fmt0 (.short 100 (by decide)) ⟨1, by decide⟩ 8 1, [], [0xAA]⟩,
    ⟨stream3, .fmt1 (.short 10 (by decide)) ⟨1, by decide⟩ 8, [], [0xBB]⟩,
    ⟨stream3, third, [], [0xCC]⟩]

/-- With a header of format 2 the third message is 10 later than the second. -/
theorem everyTen_fmt2 : Emits 3 128 (everyTen (.fmt2 (.short 10 (by decide)))) := by
  have hwell : WellFormed 3 (.start 128) (everyTen (.fmt2 (.short 10 (by decide)))) :=
    ⟨⟨rfl, trivial, rfl, rfl, by simp⟩, ⟨rfl, Previous.noConfusion, rfl, rfl, by simp⟩,
      ⟨rfl, Previous.noConfusion, rfl, rfl, by simp⟩, trivial⟩
  refine ((parse_compressed (by decide) hwell).2.2 ?_).2 ?_
  · exact ⟨fun _ => rfl, fun _ => rfl, fun _ => rfl, trivial⟩
  · exact ⟨rfl, rfl, rfl, trivial⟩

/-- With a header of format 3 it should be, and the difference is not added. -/
theorem repeated_difference_lost :
    WellFormed 3 (.start 128) (everyTen (.fmt3 none)) ∧ ¬ Emits 3 128 (everyTen (.fmt3 none)) := by
  constructor
  · exact ⟨⟨rfl, trivial, rfl, rfl, by simp⟩, ⟨rfl, Previous.noConfusion, rfl, rfl, by simp⟩,
      ⟨rfl, ⟨⟨10, rfl⟩, rfl⟩, rfl, rfl, by simp⟩, trivial⟩
  · decide

end Rtmp
