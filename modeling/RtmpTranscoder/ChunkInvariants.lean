/-
**Invariants of the chunk parser, and the conservation of bytes.**

Whatever arrives, a reachable parser is sane: a stream has received as many bytes as it has
collected, fewer than `2 ^ 24`, and the header it remembers is its own.  The last clause needs
care: a format 3 chunk on a chunk stream without a previous header takes over the default header,
chunk stream id 0 included, so that its message is handed over under the id 0.  Such a message is
always empty, and the stream 0 is never touched otherwise.

From sanity follows what one call of `parse` does to the bytes: it cuts whole chunks off the front
and keeps the rest, and every payload byte of those chunks goes, in order, to the message of its
own chunk stream.

Main definitions:

* `Rtmp.Sane` — the invariant;
* `Rtmp.Reachable` — the parsers that arise from a fresh one;
* `Rtmp.Piece`, `Rtmp.WholeChunks` — chunks, and the parser taking them one after the other;
* `Rtmp.ChunkParser.parseAll` — a list of calls of `parse`.

Main results:

* `Rtmp.Sane.collect`, `Rtmp.Sane.opened` — a chunk, and the header of an incomplete chunk, keep
  the parser sane;
* `Rtmp.Reachable.sane` — **reachable parsers are sane**;
* `Rtmp.parse_conserves` — **no byte is lost, duplicated or reordered**, and the buffer is
  bounded.
-/

import RtmpTranscoder.ChunkDecoder

set_option relaxedAutoImplicit false
set_option autoImplicit false

namespace Rtmp

open Incremental

/-! ### The streams after a header and after a chunk -/

@[simp] theorem StreamState.prepare_bytesReceived (s : StreamState) :
    s.prepare.bytesReceived = s.bytesReceived := by
  unfold StreamState.prepare
  split <;> rfl

namespace WireHeader

variable (w : WireHeader) (core : ParserCore)

@[simp] theorem update_self (streams : Streams) :
    w.update streams w.csid
      = { streams w.csid with prevHeader := w.remember (streams w.csid).prevHeader } := by
  simp [update]

theorem update_of_ne (streams : Streams) {c : UInt32} (h : c ≠ w.csid) :
    w.update streams c = streams c := by
  simp [update, h]

@[simp] theorem update_bytesReceived (streams : Streams) (c : UInt32) :
    (w.update streams c).bytesReceived = (streams c).bytesReceived := by
  by_cases h : c = w.csid
  · subst h; simp
  · rw [w.update_of_ne streams h]

@[simp] theorem update_partialMessage (streams : Streams) (c : UInt32) :
    (w.update streams c).partialMessage = (streams c).partialMessage := by
  by_cases h : c = w.csid
  · subst h; simp
  · rw [w.update_of_ne streams h]

/-- The stream that receives the payload, once it is there and the message is not complete. -/
def grown (payload : List UInt8) : StreamState :=
  { w.stream core with
    partialMessage := (w.stream core).partialMessage ++ payload,
    bytesReceived := (w.stream core).bytesReceived + w.need core }

/-- The message that a chunk completes. -/
def completed (payload : List UInt8) : Chunk where
  header := w.head core
  payload := (w.stream core).partialMessage ++ payload

theorem collect_complete {payload : List UInt8}
    (h : (w.head core).messageLength ≤ (w.stream core).bytesReceived + w.need core) :
    w.collect core payload =
      ({ chunkSize := receiveChunk core.chunkSize (w.completed core payload),
         streams := Function.update (w.update core.streams) (w.head core).chunkStreamId
           { w.stream core with partialMessage := [], bytesReceived := 0 } },
        [w.completed core payload]) := by
  simp only [collect, Rtmp.collect, if_pos h, opened, Function.update_idem]
  rfl

theorem collect_incomplete {payload : List UInt8}
    (h : ¬ (w.head core).messageLength ≤ (w.stream core).bytesReceived + w.need core) :
    w.collect core payload =
      ({ chunkSize := core.chunkSize,
         streams := Function.update (w.update core.streams) (w.head core).chunkStreamId
           (w.grown core payload) }, []) := by
  simp only [collect, Rtmp.collect, if_neg h, opened, Function.update_idem]
  rfl

end WireHeader

/-! ### The invariant -/

/-- What every reachable parser satisfies. -/
structure Sane (core : ParserCore) : Prop where
  /-- The stream 0, which no chunk can name, is untouched. -/
  zero : core.streams 0 = {}
  /-- A remembered header is the stream's own, or still the default one, which is empty. -/
  own : ∀ c, (core.streams c).prevHeader.chunkStreamId = c ∨
    ((core.streams c).prevHeader.chunkStreamId = 0 ∧
      (core.streams c).prevHeader.messageLength = 0)
  /-- Message lengths have 24 bits. -/
  length_lt : ∀ c, (core.streams c).prevHeader.messageLength.toNat < 2 ^ 24
  /-- As many bytes have been received as have been collected. -/
  received : ∀ c, (core.streams c).partialMessage.length = (core.streams c).bytesReceived.toNat
  /-- A message that is not complete has less than `2 ^ 24` bytes. -/
  received_lt : ∀ c, (core.streams c).bytesReceived.toNat < 2 ^ 24
  /-- While a message is incomplete, the chunk size has 31 bits. -/
  chunkSize : (∀ c, (core.streams c).bytesReceived = 0) ∨ core.chunkSize.toNat < 2 ^ 31

namespace Sane

variable {core : ParserCore} {w : WireHeader}

theorem new (n : UInt32) : Sane (ChunkParser.new n).toParserCore where
  zero := rfl
  own := fun _ => .inr ⟨rfl, rfl⟩
  length_lt := fun _ => by simp [ChunkParser.new]
  received := fun _ => rfl
  received_lt := fun _ => by simp [ChunkParser.new]
  chunkSize := .inl fun _ => rfl

/-- Between messages nothing has been collected, so preparing a stream changes nothing. -/
theorem prepare_update (h : Sane core) (c : UInt32) :
    (w.update core.streams c).prepare = w.update core.streams c := by
  unfold StreamState.prepare
  split
  · rename_i h0
    rw [w.update_bytesReceived] at h0
    have hlen := h.received c
    rw [h0] at hlen
    have hnil : (w.update core.streams c).partialMessage = [] := by
      rw [w.update_partialMessage]
      exact List.eq_nil_of_length_eq_zero hlen
    rw [← hnil]
  · rfl

theorem stream_eq (h : Sane core) :
    w.stream core = w.update core.streams (w.head core).chunkStreamId :=
  h.prepare_update _

theorem opened_eq (h : Sane core) :
    w.opened core = { core with streams := w.update core.streams } := by
  simp only [WireHeader.opened, h.stream_eq, Function.update_eq_self]

/-- The header of a chunk is on the chunk's own stream, or it is an empty one on the stream 0. -/
theorem head_own (h : Sane core) :
    (w.head core).chunkStreamId = w.csid ∨
      ((w.head core).chunkStreamId = 0 ∧ (w.head core).messageLength = 0) := by
  obtain ⟨b, m⟩ := w
  cases m with
  | fmt0 => exact .inl rfl
  | fmt1 => exact .inl rfl
  | fmt2 => exact .inl rfl
  | fmt3 ext => cases ext <;> exact h.own b.csid

theorem head_length_lt (h : Sane core) : (w.head core).messageLength.toNat < 2 ^ 24 := by
  obtain ⟨b, m⟩ := w
  cases m with
  | fmt0 _ length => exact length.2
  | fmt1 _ length => exact length.2
  | fmt2 => exact h.length_lt b.csid
  | fmt3 ext => cases ext <;> exact h.length_lt b.csid

/-- The sum that the parser keeps in 32 bits does not wrap. -/
theorem toNat_received (h : Sane core) :
    ((w.stream core).bytesReceived + w.need core).toNat
      = (w.stream core).bytesReceived.toNat + (w.need core).toNat := by
  have hbr := h.received_lt (w.head core).chunkStreamId
  have hml := h.head_length_lt (w := w)
  have hneed : (w.need core).toNat ≤ core.chunkSize.toNat ∧ (w.need core).toNat
      ≤ ((w.head core).messageLength - (w.stream core).bytesReceived).toNat := by
    simp only [WireHeader.need, bytesToRead, UInt32.toNat_min]
    omega
  have hst : (w.stream core).bytesReceived
      = (core.streams (w.head core).chunkStreamId).bytesReceived := by
    simp [WireHeader.stream]
  rw [UInt32.toNat_add, hst]
  rw [hst] at hneed
  apply Nat.mod_eq_of_lt
  rcases h.chunkSize with hz | hcs
  · rw [hz, UInt32.sub_zero] at hneed
    rw [hz]
    simp
    omega
  · omega

theorem update (h : Sane core) (w : WireHeader) :
    Sane { core with streams := w.update core.streams } where
  zero := by
    have hne : (0 : UInt32) ≠ w.csid := fun h0 => w.csid_ne_zero h0.symm
    simp only [w.update_of_ne core.streams hne, h.zero]
  own c := by
    by_cases hc : c = w.csid
    · subst hc
      obtain ⟨b, m⟩ := w
      simp only [WireHeader.update_self]
      cases m with
      | fmt0 => exact .inl rfl
      | fmt1 => exact .inl rfl
      | fmt2 => exact h.own b.csid
      | fmt3 => exact h.own b.csid
    · simp only [w.update_of_ne core.streams hc]
      exact h.own c
  length_lt c := by
    by_cases hc : c = w.csid
    · subst hc
      obtain ⟨b, m⟩ := w
      simp only [WireHeader.update_self]
      cases m with
      | fmt0 _ length => exact length.2
      | fmt1 _ length => exact length.2
      | fmt2 => exact h.length_lt b.csid
      | fmt3 => exact h.length_lt b.csid
    · simp only [w.update_of_ne core.streams hc]
      exact h.length_lt c
  received c := by
    simp only [w.update_partialMessage, w.update_bytesReceived]
    exact h.received c
  received_lt c := by
    simp only [w.update_bytesReceived]
    exact h.received_lt c
  chunkSize := by
    simp only [w.update_bytesReceived]
    exact h.chunkSize

theorem opened (h : Sane core) (w : WireHeader) : Sane (w.opened core) := by
  rw [h.opened_eq]
  exact h.update w

end Sane

/-- A received `SetChunkSize` gives a chunk size in range, or none. -/
theorem receiveChunk_cases (n : UInt32) (chunk : Chunk) :
    receiveChunk n chunk = n ∨
      (0 < (receiveChunk n chunk).toNat ∧ (receiveChunk n chunk).toNat ≤ 16777216) := by
  unfold receiveChunk
  split
  · split
    · exact .inl rfl
    · rename_i msg _
      split
      · exact .inl rfl
      · rename_i hne
        split
        · rename_i hle
          refine .inr ⟨?_, by simpa [UInt32.le_iff_toNat_le, maxChunkSize] using hle⟩
          have : msg.chunkSize.toNat ≠ 0 := fun h0 => hne (by rw [← UInt32.toNat_inj]; simpa using h0)
          omega
        · exact .inl rfl
  · exact .inl rfl

namespace Sane

variable {core : ParserCore} {w : WireHeader}

/-- A parser whose streams differ in the bytes received on one of them. -/
theorem of_stream (h : Sane core) {n c : UInt32} {st : StreamState} (hc : c ≠ 0 ∨ st = {})
    (hprev : st.prevHeader = (core.streams c).prevHeader)
    (hlen : st.partialMessage.length = st.bytesReceived.toNat)
    (hlt : st.bytesReceived.toNat < 2 ^ 24)
    (hn : (st.bytesReceived = 0 ∧ ∀ c, (core.streams c).bytesReceived = 0) ∨ n.toNat < 2 ^ 31) :
    Sane { chunkSize := n, streams := Function.update core.streams c st } where
  zero := by
    rcases hc with hc | hst
    · simp only [Function.update_of_ne hc.symm, h.zero]
    · by_cases hc : c = 0
      · subst hc hst; simp
      · simp only [Function.update_of_ne (Ne.symm hc), h.zero]
  own d := by
    by_cases hd : d = c
    · subst hd
      simp only [Function.update_self, hprev]
      exact h.own d
    · simp only [Function.update_of_ne hd]
      exact h.own d
  length_lt d := by
    by_cases hd : d = c
    · subst hd
      simp only [Function.update_self, hprev]
      exact h.length_lt d
    · simp only [Function.update_of_ne hd]
      exact h.length_lt d
  received d := by
    by_cases hd : d = c
    · subst hd
      simpa only [Function.update_self] using hlen
    · simp only [Function.update_of_ne hd]
      exact h.received d
  received_lt d := by
    by_cases hd : d = c
    · subst hd
      simpa only [Function.update_self] using hlt
    · simp only [Function.update_of_ne hd]
      exact h.received_lt d
  chunkSize := by
    rcases hn with ⟨h0, hz⟩ | hn
    · refine .inl fun d => ?_
      by_cases hd : d = c
      · subst hd
        simpa only [Function.update_self] using h0
      · simp only [Function.update_of_ne hd]
        exact hz d
    · exact .inr hn

/-- **A chunk keeps the parser sane.** -/
theorem collect (h : Sane core) {payload : List UInt8}
    (hp : payload.length = (w.need core).toNat) : Sane (w.collect core payload).1 := by
  have hu := h.update w
  have hprev : (w.stream core).prevHeader
      = (w.update core.streams (w.head core).chunkStreamId).prevHeader := by
    rw [h.stream_eq]
  by_cases hdone : (w.head core).messageLength ≤ (w.stream core).bytesReceived + w.need core
  · rw [w.collect_complete core hdone]
    refine hu.of_stream ?_ hprev rfl (by simp) ?_
    · -- the stream 0 is reset to what it was
      rcases h.head_own (w := w) with hc | ⟨hc, -⟩
      · exact .inl (hc ▸ w.csid_ne_zero)
      · refine .inr ?_
        have hne : (0 : UInt32) ≠ w.csid := fun h0 => w.csid_ne_zero h0.symm
        rw [h.stream_eq, hc, w.update_of_ne core.streams hne, h.zero]
    · rcases receiveChunk_cases core.chunkSize (w.completed core payload) with heq | ⟨-, hle⟩
      · rw [heq]
        rcases h.chunkSize with hz | hcs
        · exact .inl ⟨rfl, by simpa using hz⟩
        · exact .inr hcs
      · exact .inr (by omega)
  · rw [w.collect_incomplete core hdone]
    have hlt := UInt32.lt_iff_toNat_lt.1 (UInt32.not_le.1 hdone)
    have hml := h.head_length_lt (w := w)
    have hsum := h.toNat_received (w := w)
    have hrec := h.received (w.head core).chunkStreamId
    refine hu.of_stream ?_ hprev ?_ ?_ ?_
    · -- a message on the stream 0 is empty, hence complete
      rcases h.head_own (w := w) with hc | ⟨-, hml0⟩
      · exact .inl (hc ▸ w.csid_ne_zero)
      · rw [hml0] at hlt
        simp at hlt
    · simp only [WireHeader.grown, List.length_append, hp, hsum]
      rw [h.stream_eq, w.update_partialMessage, w.update_bytesReceived, hrec]
    · simp only [WireHeader.grown]
      omega
    · refine .inr ?_
      rcases h.chunkSize with hz | hcs
      · have h0 : (w.stream core).bytesReceived = 0 := by
          rw [h.stream_eq, w.update_bytesReceived, hz]
        have hneed : (w.need core).toNat
            = min core.chunkSize.toNat (w.head core).messageLength.toNat := by
          rw [WireHeader.need, bytesToRead, h0, UInt32.sub_zero, UInt32.toNat_min]
        rw [hsum, h0] at hlt
        simp at hlt
        omega
      · exact hcs

end Sane

/-! ### Reachable parsers -/

/-- The parsers that arise from a fresh one.  The only caller of `set_chunk_size` is
`Session::process_input`, with a value of 31 bits (`Rtmp.SetChunkSizeMessage.toNat_lt`). -/
inductive Reachable : ChunkParser → Prop
  | new (n : UInt32) : Reachable (ChunkParser.new n)
  | parse {p : ChunkParser} (data : List UInt8) : Reachable p → Reachable (p.parse data).1
  | setChunkSize {p : ChunkParser} {n : UInt32} (h : n.toNat < 2 ^ 31) :
      Reachable p → Reachable (p.setChunkSize n)

theorem Sane.run {core core' : ParserCore} {bytes : List UInt8} {out : List Chunk}
    (h : Sane core) (hr : chunkDecoder.Run core bytes out core') : Sane core' := by
  refine hr.invariant (P := fun _ _ => True) ?_ [] (fun _ _ _ _ _ _ => trivial) h
  intro s s' u rest out hstep _ hs
  obtain ⟨w, payload, rest, -, -, hp, -, hc⟩ := chunkStep_take hstep
  have := hs.collect hp
  rwa [← hc] at this

theorem Sane.settle {core : ParserCore} {xs : List UInt8} (h : Sane core)
    (hw : chunkDecoder.step core xs = .wait (chunkDecoder.settle core xs)) :
    Sane (chunkDecoder.settle core xs) := by
  rcases chunkStep_wait hw with ⟨-, heq⟩ | ⟨w, payload, -, -, -, heq⟩
  · rw [heq]
    exact h
  · rw [heq]
    exact h.opened w

theorem Sane.feed {c : ParserCore × List UInt8} (h : Sane c.1) (xs : List UInt8) :
    Sane (chunkDecoder.feed c xs).1.1 := by
  obtain ⟨bytes, -, hrun, hwait⟩ := chunkDecoder.drain_spec c.1 (c.2 ++ xs)
  exact (h.run hrun).settle hwait

/-- **Reachable parsers are sane.** -/
theorem Reachable.sane {p : ChunkParser} (h : Reachable p) : Sane p.toParserCore := by
  induction h with
  | new n => exact Sane.new n
  | @parse p data _ ih =>
      rw [p.parse_eq]
      exact Sane.feed (c := (p.toParserCore, p.buffer)) ih data
  | setChunkSize hn _ ih =>
      exact ⟨ih.zero, ih.own, ih.length_lt, ih.received, ih.received_lt, .inr hn⟩

/-! ### Whole chunks -/

/-- A chunk: a header and the payload bytes that come with it. -/
structure Piece where
  header : WireHeader
  payload : List UInt8

def Piece.bytes (piece : Piece) : List UInt8 := piece.header.bytes ++ piece.payload

/-- `WholeChunks core pieces out core'`: the parser takes the chunks `pieces` one after the other,
each with exactly the payload it calls for, and hands over `out`. -/
inductive WholeChunks : ParserCore → List Piece → List Chunk → ParserCore → Prop
  | nil (core : ParserCore) : WholeChunks core [] [] core
  | cons {core core' : ParserCore} {piece : Piece} {pieces : List Piece} {out : List Chunk} :
      piece.header.Fits core.streams →
      piece.payload.length = (piece.header.need core).toNat →
      WholeChunks (piece.header.collect core piece.payload).1 pieces out core' →
      WholeChunks core (piece :: pieces)
        ((piece.header.collect core piece.payload).2 ++ out) core'

/-- A chunk that completes nothing adds nothing to what the chunks after it hand over. -/
theorem WholeChunks.cons_of_none {core core' : ParserCore} {piece : Piece} {pieces : List Piece}
    {out : List Chunk} (hfit : piece.header.Fits core.streams)
    (hp : piece.payload.length = (piece.header.need core).toNat)
    (hout : (piece.header.collect core piece.payload).2 = [])
    (h : WholeChunks (piece.header.collect core piece.payload).1 pieces out core') :
    WholeChunks core (piece :: pieces) out core' := by
  have := WholeChunks.cons hfit hp h
  rwa [hout, List.nil_append] at this

theorem WholeChunks.single {core : ParserCore} {piece : Piece}
    (hfit : piece.header.Fits core.streams)
    (hp : piece.payload.length = (piece.header.need core).toNat) :
    WholeChunks core [piece] (piece.header.collect core piece.payload).2
      (piece.header.collect core piece.payload).1 := by
  have := WholeChunks.cons hfit hp (WholeChunks.nil _)
  rwa [List.append_nil] at this

theorem exists_wait_of_cut {core : ParserCore} {piece : Piece}
    (hfit : piece.header.Fits core.streams)
    (hp : piece.payload.length = (piece.header.need core).toNat) {xs tail : List UInt8}
    (hcut : piece.bytes = xs ++ tail) (hlt : xs.length < piece.bytes.length) :
    ∃ s, chunkDecoder.step core xs = .wait s := by
  have hunit := chunkStep_unit hfit hp
  rw [← Piece.bytes] at hunit
  cases hstep : chunkDecoder.step core xs with
  | wait s => exact ⟨s, rfl⟩
  | take n s o =>
      have hn := chunkDecoder.take_le hstep
      have hlong := chunkDecoder.take_append hstep tail
      rw [← hcut, hunit, Outcome.take.injEq] at hlong
      omega

theorem Run.wholeChunks {core core' : ParserCore} {bytes : List UInt8} {out : List Chunk}
    (h : chunkDecoder.Run core bytes out core') :
    ∃ pieces, bytes = pieces.flatMap Piece.bytes ∧ WholeChunks core pieces out core' := by
  induction h with
  | nil core => exact ⟨[], rfl, WholeChunks.nil core⟩
  | @cons core core₁ core₂ u v out out' hu _ ih =>
      obtain ⟨pieces, rfl, hpieces⟩ := ih
      obtain ⟨w, payload, rest, hfit, hbytes, hp, hlen, hc⟩ := chunkStep_take hu
      have hrest : rest = [] := by
        have := congrArg List.length hbytes
        simp only [List.length_append] at this
        exact List.eq_nil_of_length_eq_zero (by omega)
      refine ⟨⟨w, payload⟩ :: pieces, ?_, ?_⟩
      · rw [hbytes, hrest, List.append_nil]
        rfl
      · obtain ⟨rfl, rfl⟩ := Prod.mk.inj hc
        exact @WholeChunks.cons _ _ ⟨w, payload⟩ _ _ hfit hp hpieces

theorem WholeChunks.run {core core' : ParserCore} {pieces : List Piece} {out : List Chunk}
    (h : WholeChunks core pieces out core') :
    chunkDecoder.Run core (pieces.flatMap Piece.bytes) out core' := by
  induction h with
  | nil core => exact Decoder.Run.nil core
  | cons hfit hp _ ih => exact Decoder.Run.cons (chunkStep_unit hfit hp) ih

theorem WholeChunks.append {core core₁ core₂ : ParserCore} {pieces pieces' : List Piece}
    {out out' : List Chunk} (h : WholeChunks core pieces out core₁)
    (h' : WholeChunks core₁ pieces' out' core₂) :
    WholeChunks core (pieces ++ pieces') (out ++ out') core₂ := by
  induction h with
  | nil core => exact h'
  | cons hfit hp _ ih =>
      rw [List.cons_append, List.append_assoc]
      exact .cons hfit hp (ih h')

theorem WholeChunks.unique {core core₁ core₂ : ParserCore} {pieces : List Piece}
    {out out' : List Chunk} (h : WholeChunks core pieces out core₁)
    (h' : WholeChunks core pieces out' core₂) : out = out' ∧ core₁ = core₂ :=
  h.run.state_unique h'.run

theorem WholeChunks.of_append {core core' : ParserCore} {pieces pieces' : List Piece}
    {out : List Chunk} (h : WholeChunks core (pieces ++ pieces') out core') :
    ∃ out₁ core₁ out₂, WholeChunks core pieces out₁ core₁ ∧ WholeChunks core₁ pieces' out₂ core' ∧
      out = out₁ ++ out₂ := by
  induction pieces generalizing core out with
  | nil => exact ⟨[], core, out, .nil core, h, rfl⟩
  | cons piece pieces ih =>
      cases h with
      | cons hfit hp hrest =>
          obtain ⟨out₁, core₁, out₂, h₁, h₂, rfl⟩ := ih hrest
          exact ⟨_, core₁, out₂, .cons hfit hp h₁, h₂, by rw [List.append_assoc]⟩

/-- The payload bytes of the chunks on the chunk stream `c`, in order. -/
def payloadOn (c : UInt32) (pieces : List Piece) : List UInt8 :=
  (pieces.filter fun piece => piece.header.csid = c).flatMap Piece.payload

/-- The payload bytes of the messages handed over on the chunk stream `c`, in order. -/
def messagesOn (c : UInt32) (chunks : List Chunk) : List UInt8 :=
  (chunks.filter fun chunk => chunk.header.chunkStreamId = c).flatMap Chunk.payload

@[simp] theorem messagesOn_append (c : UInt32) (l₁ l₂ : List Chunk) :
    messagesOn c (l₁ ++ l₂) = messagesOn c l₁ ++ messagesOn c l₂ := by
  simp [messagesOn]

@[simp] theorem payloadOn_append (c : UInt32) (l₁ l₂ : List Piece) :
    payloadOn c (l₁ ++ l₂) = payloadOn c l₁ ++ payloadOn c l₂ := by
  simp [payloadOn]

/-- A chunk whose message goes to the stream 0 has no payload. -/
theorem Sane.need_eq_zero {core : ParserCore} {w : WireHeader} (h : Sane core)
    (hc : (w.head core).chunkStreamId ≠ w.csid) :
    (w.head core).chunkStreamId = 0 ∧ (w.stream core) = {} ∧ w.need core = 0 ∧
      (w.head core).messageLength = 0 := by
  rcases h.head_own (w := w) with hown | ⟨h0, hml⟩
  · exact absurd hown hc
  · have hst : w.stream core = {} := by
      rw [h.stream_eq, h0, w.update_of_ne core.streams (Ne.symm w.csid_ne_zero), h.zero]
    refine ⟨h0, hst, ?_, hml⟩
    rw [WireHeader.need, bytesToRead, hst, hml, ← UInt32.toNat_inj, UInt32.toNat_min]
    simp

/-- A chunk leaves every chunk stream but its own as it was. -/
theorem Sane.collect_streams_of_ne {core : ParserCore} {w : WireHeader} {payload : List UInt8}
    (hs : Sane core) {c : UInt32} (hc : c ≠ w.csid) :
    (w.collect core payload).1.streams c = core.streams c := by
  rcases hs.head_own (w := w) with hown | ⟨hzero, hlength⟩
  · have hne : c ≠ (w.head core).chunkStreamId := by rwa [hown]
    by_cases hdone : (w.head core).messageLength ≤ (w.stream core).bytesReceived + w.need core
    · rw [w.collect_complete core hdone]
      simp only [Function.update_of_ne hne, w.update_of_ne core.streams hc]
    · rw [w.collect_incomplete core hdone]
      simp only [Function.update_of_ne hne, w.update_of_ne core.streams hc]
  · -- an empty message on the stream 0 resets it to what it was
    have hdone : (w.head core).messageLength ≤ (w.stream core).bytesReceived + w.need core := by
      rw [hlength, UInt32.le_iff_toNat_le]
      simp
    have hempty : w.stream core = {} := by
      rw [hs.stream_eq, hzero, w.update_of_ne core.streams (Ne.symm w.csid_ne_zero), hs.zero]
    rw [w.collect_complete core hdone, hzero, hempty]
    by_cases h0 : c = 0
    · subst h0
      simp only [Function.update_self, hs.zero]
    · simp only [Function.update_of_ne h0, w.update_of_ne core.streams hc]

/-- Without a `SetChunkSize`, a chunk leaves the chunk size as it was. -/
theorem collect_chunkSize {core : ParserCore} {w : WireHeader} {payload : List UInt8}
    (h : ∀ chunk ∈ (w.collect core payload).2,
      chunk.header.messageTypeId ≠ MessageType.setChunkSize.code) :
    (w.collect core payload).1.chunkSize = core.chunkSize := by
  by_cases hdone : (w.head core).messageLength ≤ (w.stream core).bytesReceived + w.need core
  · rw [w.collect_complete core hdone] at h ⊢
    exact if_neg (h _ (List.mem_singleton.2 rfl))
  · rw [w.collect_incomplete core hdone]

/-- One chunk adds its payload to what its stream has collected and handed over. -/
theorem Sane.collect_conserves {core : ParserCore} {w : WireHeader} {payload : List UInt8}
    (h : Sane core) (hp : payload.length = (w.need core).toNat) (c : UInt32) :
    messagesOn c (w.collect core payload).2 ++ ((w.collect core payload).1.streams c).partialMessage
      = (core.streams c).partialMessage ++ payloadOn c [⟨w, payload⟩] := by
  have hst : (w.stream core).partialMessage
      = (core.streams (w.head core).chunkStreamId).partialMessage := by
    rw [h.stream_eq, w.update_partialMessage]
  by_cases hlabel : (w.head core).chunkStreamId = w.csid
  · -- the stream of the chunk
    rw [hlabel] at hst
    by_cases hdone : (w.head core).messageLength ≤ (w.stream core).bytesReceived + w.need core
    · rw [w.collect_complete core hdone, hlabel]
      by_cases hc : w.csid = c
      · subst hc
        simp [messagesOn, payloadOn, WireHeader.completed, hlabel, hst]
      · simp [messagesOn, payloadOn, WireHeader.completed, hlabel, hc, Ne.symm hc]
    · rw [w.collect_incomplete core hdone, hlabel]
      by_cases hc : w.csid = c
      · subst hc
        simp [messagesOn, payloadOn, WireHeader.grown, hst]
      · simp [messagesOn, payloadOn, hc, Ne.symm hc]
  · -- an empty message on the stream 0
    obtain ⟨h0, hempty, hneed, hml⟩ := h.need_eq_zero hlabel
    have hnil : payload = [] := List.eq_nil_of_length_eq_zero (by rw [hp, hneed]; rfl)
    have hdone : (w.head core).messageLength ≤ (w.stream core).bytesReceived + w.need core := by
      rw [hml, UInt32.le_iff_toNat_le]
      simp
    rw [w.collect_complete core hdone, hnil, h0, hempty]
    by_cases hc : c = 0
    · subst hc
      simp [messagesOn, payloadOn, WireHeader.completed, hempty, h.zero, h0, w.csid_ne_zero]
    · simp [messagesOn, payloadOn, WireHeader.completed, hempty, hc, Ne.symm hc, h0]

/-- Whole chunks add their payloads to what their streams have collected and handed over. -/
theorem WholeChunks.conserves {core core' : ParserCore} {pieces : List Piece} {out : List Chunk}
    (h : WholeChunks core pieces out core') (hs : Sane core) (c : UInt32) :
    messagesOn c out ++ (core'.streams c).partialMessage
      = (core.streams c).partialMessage ++ payloadOn c pieces := by
  induction h with
  | nil core => simp [messagesOn, payloadOn]
  | @cons core core' piece pieces out _ hp _ ih =>
      have hhead := hs.collect_conserves hp c
      rw [messagesOn_append, List.append_assoc, ih (hs.collect hp), ← List.append_assoc, hhead,
        List.append_assoc, ← payloadOn_append]
      rfl

/-! ### Calls of `parse` -/

/-- What one call of `parse` does, in full. -/
theorem Reachable.parse_spec {p : ChunkParser} (hp : Reachable p) (data : List UInt8) :
    ∃ p' bytes chunks pieces core,
      p.parse data = (p', bytes.length - p.buffer.length, .ok chunks) ∧
      p.buffer ++ data = bytes ++ p'.buffer ∧
      bytes = pieces.flatMap Piece.bytes ∧ WholeChunks p.toParserCore pieces chunks core ∧
      (∀ c, messagesOn c chunks ++ (p'.streams c).partialMessage
        = (p.streams c).partialMessage ++ payloadOn c pieces) ∧
      p'.buffer.length < 18 + p'.chunkSize.toNat := by
  obtain ⟨bytes, hbytes, hrun, hwait⟩ := chunkDecoder.drain_spec p.toParserCore (p.buffer ++ data)
  obtain ⟨pieces, hpieces, hwhole⟩ := Run.wholeChunks hrun
  have hparse := p.parse_eq data
  simp only [Decoder.feed] at hparse
  generalize chunkDecoder.drain p.toParserCore (p.buffer ++ data) = r at *
  have hstop := hp.sane.run hrun
  have hsettle : (∀ c, ((chunkDecoder.settle r.stop r.rest).streams c).partialMessage
        = (r.stop.streams c).partialMessage) ∧
      r.rest.length < 18 + (chunkDecoder.settle r.stop r.rest).chunkSize.toNat := by
    rcases chunkStep_wait hwait with ⟨hlen, heq⟩ | ⟨w, payload, hfit, hrest, hlen, heq⟩
    · rw [heq]
      exact ⟨fun _ => rfl, by omega⟩
    · rw [heq, hstop.opened_eq]
      have hw := w.length_bytes_le
      have hneed : (w.need r.stop).toNat ≤ r.stop.chunkSize.toNat := by
        simp only [WireHeader.need, bytesToRead, UInt32.toNat_min]
        omega
      refine ⟨fun c => w.update_partialMessage _ c, ?_⟩
      change r.rest.length < 18 + r.stop.chunkSize.toNat
      rw [hrest, List.length_append]
      omega
  refine ⟨{ chunkDecoder.settle r.stop r.rest with buffer := r.rest }, bytes, r.out, pieces, r.stop,
    ?_, hbytes, hpieces, hwhole, fun c => ?_, hsettle.2⟩
  · rw [hparse]
    simp only [hbytes, List.length_append, Nat.add_sub_cancel]
  · simp only [hsettle.1 c]
    exact hwhole.conserves hp.sane c

/-- A list of calls of `parse`: the parser afterwards, and all messages handed over. -/
def ChunkParser.parseAll (p : ChunkParser) :
    List (List UInt8) → Except Failure (ChunkParser × List Chunk)
  | [] => .ok (p, [])
  | data :: reads =>
      match p.parse data with
      | (p', _, .ok chunks) => (parseAll p' reads).map fun r => (r.1, chunks ++ r.2)
      | (_, _, .error f) => .error f

/-- **No byte is lost, duplicated or reordered, and the buffer is bounded.**  For every reachable
parser and every input, `parse` ends without an error and without leaving its span; it takes whole
chunks off the front of the combined data and keeps exactly the rest, it consumes what of the
chunks was not buffered before, and each payload byte is appended once, in order, to the message
of its chunk stream.  The same holds of any list of calls. -/
theorem parse_conserves {p : ChunkParser} (hp : Reachable p) :
    (∀ data, ∃ p' bytes chunks pieces core,
      p.parse data = (p', bytes.length - p.buffer.length, .ok chunks) ∧
      p.buffer ++ data = bytes ++ p'.buffer ∧
      bytes = pieces.flatMap Piece.bytes ∧ WholeChunks p.toParserCore pieces chunks core ∧
      (∀ c, messagesOn c chunks ++ (p'.streams c).partialMessage
        = (p.streams c).partialMessage ++ payloadOn c pieces) ∧
      p'.buffer.length < 18 + p'.chunkSize.toNat) ∧
    (∀ reads, ∃ p' chunks pieces,
      p.parseAll reads = .ok (p', chunks) ∧
      p.buffer ++ reads.flatten = pieces.flatMap Piece.bytes ++ p'.buffer ∧
      ∀ c, messagesOn c chunks ++ (p'.streams c).partialMessage
        = (p.streams c).partialMessage ++ payloadOn c pieces) := by
  refine ⟨hp.parse_spec, fun reads => ?_⟩
  induction reads generalizing p with
  | nil => exact ⟨p, [], [], rfl, by simp, fun c => by simp [messagesOn, payloadOn]⟩
  | cons data reads ih =>
      obtain ⟨p₁, bytes, chunks, pieces, core, hparse, hcut, rfl, -, hcons, -⟩ := hp.parse_spec data
      have hp₁ : Reachable p₁ := by
        have := hp.parse data
        rwa [hparse] at this
      obtain ⟨p₂, chunks₂, pieces₂, hall, hcut₂, hcons₂⟩ := ih hp₁
      refine ⟨p₂, chunks ++ chunks₂, pieces ++ pieces₂, ?_, ?_, fun c => ?_⟩
      · simp only [ChunkParser.parseAll, hparse, hall]
        rfl
      · rw [List.flatten_cons, ← List.append_assoc, hcut, List.append_assoc, hcut₂,
          List.flatMap_append, List.append_assoc]
      · rw [messagesOn_append, List.append_assoc, hcons₂ c, ← List.append_assoc, hcons c,
          List.append_assoc, ← payloadOn_append]

/-- The theorem at work on a parser that holds the first byte of a header. -/
theorem parse_conserves_cut_header :
    ∃ p' bytes chunks pieces core,
      ((ChunkParser.new 128).parse [0x03]).1.parse [0, 0, 100] = (p', bytes.length - 1, .ok chunks) ∧
      [0x03, 0, 0, 100] = bytes ++ p'.buffer ∧
      bytes = pieces.flatMap Piece.bytes ∧
      WholeChunks ((ChunkParser.new 128).parse [0x03]).1.toParserCore pieces chunks core ∧
      (∀ c, messagesOn c chunks ++ (p'.streams c).partialMessage = payloadOn c pieces) ∧
      p'.buffer.length < 18 + p'.chunkSize.toNat :=
  (parse_conserves (Reachable.parse [0x03] (Reachable.new 128))).1 [0, 0, 100]

end Rtmp
