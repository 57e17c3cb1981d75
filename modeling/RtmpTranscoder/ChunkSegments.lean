/-
**Where the stream is cut.**

A transport delivers a byte stream in reads whose boundaries mean nothing.  The parser keeps the
bytes of an incomplete chunk and decodes that chunk again, from its header, when more bytes have
arrived.  By then the header has already been recorded.  For formats 0 and 3 recording a header
twice is recording it once; formats 1 and 2 add their timestamp difference to the remembered
timestamp every time.

So the cuts cannot be observed as long as none of them falls between the header of a format 1 or 2
chunk with a difference other than zero and the end of that chunk, and a cut that does fall there
can be observed.

Main definitions:

* `Rtmp.deliver` — what a list of reads makes a fresh parser hand over;
* `Rtmp.WireHeader.delta` — the timestamp difference a header carries;
* `Rtmp.CutInsideDelta` — the bytes received so far end inside such a chunk.

Main results:

* `Rtmp.quiet_of_delta_eq_zero` — a header without a difference may be recorded twice;
* `Rtmp.exists_continuation` — a difference that is added twice shows in some continuation;
* `Rtmp.deliver_cuts` — **the cuts cannot be observed exactly if none falls inside such a chunk**;
* `Rtmp.deliver_cut_observable` — a stream on which a cut is observed.
-/

import RtmpTranscoder.ChunkInvariants

set_option relaxedAutoImplicit false
set_option autoImplicit false

namespace Rtmp

open Incremental

/-! ### Recording a header twice -/

/-- The timestamp difference a header carries. -/
def WireHeader.delta (w : WireHeader) : UInt32 :=
  match w.message with
  | .fmt1 stamp _ _ => stamp.value
  | .fmt2 stamp => stamp.value
  | _ => 0

namespace WireHeader

variable {w : WireHeader}

theorem remember_remember (h : w.delta = 0) (prev : ChunkHeader) :
    w.remember (w.remember prev) = w.remember prev := by
  obtain ⟨b, m⟩ := w
  cases m with
  | fmt0 => rfl
  | fmt1 => simp_all [delta, remember, header]
  | fmt2 => simp_all [delta, remember]
  | fmt3 => rfl

theorem header_remember (h : w.delta = 0) (prev : ChunkHeader) :
    w.header (w.remember prev) = w.header prev := by
  obtain ⟨b, m⟩ := w
  cases m with
  | fmt0 => rfl
  | fmt1 => simp_all [delta, remember, header]
  | fmt2 => simp_all [delta, remember, header]
  | fmt3 => rfl

theorem update_update (h : w.delta = 0) (streams : Streams) :
    w.update (w.update streams) = w.update streams := by
  funext c
  by_cases hc : c = w.csid
  · subst hc
    simp [remember_remember h]
  · simp only [w.update_of_ne _ hc]

theorem Fits.update {streams : Streams} (h : w.Fits streams) : w.Fits (w.update streams) := by
  obtain ⟨b, m⟩ := w
  cases m with
  | fmt0 => trivial
  | fmt1 => trivial
  | fmt2 => trivial
  | fmt3 ext =>
      have hb : WireHeader.csid ⟨b, .fmt3 ext⟩ = b.csid := rfl
      simp only [Fits, update_self] at h ⊢
      exact h

end WireHeader

/-- **A header without a timestamp difference may be recorded twice.** -/
theorem quiet_of_delta_eq_zero {core : ParserCore} {w : WireHeader} (hs : Sane core)
    (hfit : w.Fits core.streams) (h : w.delta = 0) (ys : List UInt8) :
    chunkStep (w.opened core) (w.bytes ++ ys) = chunkStep core (w.bytes ++ ys) := by
  have hso := hs.opened w
  have hopened : w.opened (w.opened core) = w.opened core := by
    rw [hso.opened_eq]
    simp only [hs.opened_eq, WireHeader.update_update h]
  have hhead : w.head (w.opened core) = w.head core := by
    simp only [WireHeader.head, hs.opened_eq, WireHeader.update_self, WireHeader.header_remember h]
  have hstream : w.stream (w.opened core) = w.stream core := by
    rw [hso.stream_eq, hs.stream_eq, hhead]
    simp only [hs.opened_eq, WireHeader.update_update h]
  have hneed : w.need (w.opened core) = w.need core := by
    simp only [WireHeader.need, hhead, hstream]
    rfl
  have hfit' : w.Fits (w.opened core).streams := by
    rw [hs.opened_eq]
    exact hfit.update
  rw [chunkStep_bytes hfit', chunkStep_bytes hfit]
  simp only [WireHeader.collect, hneed, hopened, hhead, hstream]

/-! ### Recording a difference twice -/

/-- Once a header with a difference is recorded, the next one that is made of the same bytes is
later by that difference; nothing else changes. -/
theorem head_opened {core : ParserCore} {w : WireHeader} (hs : Sane core) (h : w.delta ≠ 0) :
    w.head (w.opened core)
      = { w.head core with timestamp := (w.head core).timestamp + w.delta } := by
  obtain ⟨b, m⟩ := w
  simp only [WireHeader.head, hs.opened_eq, WireHeader.update_self]
  cases m with
  | fmt0 => simp [WireHeader.delta] at h
  | fmt1 => rfl
  | fmt2 => rfl
  | fmt3 => simp [WireHeader.delta] at h

theorem head_csid_of_delta {core : ParserCore} {w : WireHeader} (h : w.delta ≠ 0) :
    (w.head core).chunkStreamId = w.csid := by
  obtain ⟨b, m⟩ := w
  cases m with
  | fmt0 => rfl
  | fmt1 => rfl
  | fmt2 => rfl
  | fmt3 => simp [WireHeader.delta] at h

theorem update_timestamp_of_delta {core : ParserCore} {w : WireHeader} (h : w.delta ≠ 0) :
    (w.update core.streams w.csid).prevHeader.timestamp = (w.head core).timestamp := by
  obtain ⟨b, m⟩ := w
  simp only [WireHeader.head, WireHeader.update_self]
  cases m with
  | fmt0 => rfl
  | fmt1 => rfl
  | fmt2 => rfl
  | fmt3 => simp [WireHeader.delta] at h

/-- A chunk that completes whatever message is unfinished on the chunk stream of `b`: format 1, no
time passed, as long as what has been received. -/
def closing (b : BasicHeader) (received : U24) : WireHeader :=
  ⟨b, .fmt1 (.short 0 (by decide)) received 8⟩

/-- The closing chunk hands over what has been received, under the remembered timestamp. -/
theorem collect_closing {core : ParserCore} (hs : Sane core) (b : BasicHeader) (received : U24)
    (hr : received.1 = (core.streams b.csid).bytesReceived) :
    ((closing b received).need core).toNat = 0 ∧
      ∃ chunk, ((closing b received).collect core []).2 = [chunk] ∧
        chunk.header.timestamp = (core.streams b.csid).prevHeader.timestamp := by
  have hst : ((closing b received).stream core).bytesReceived = received.1 := by
    rw [hs.stream_eq, WireHeader.update_bytesReceived, hr]
    rfl
  have hneed : (closing b received).need core = 0 := by
    rw [WireHeader.need, bytesToRead, hst, ← UInt32.toNat_inj, UInt32.toNat_min]
    simp [closing, WireHeader.head, WireHeader.header]
  have hdone : ((closing b received).head core).messageLength
      ≤ ((closing b received).stream core).bytesReceived + (closing b received).need core := by
    rw [hst, hneed, UInt32.add_zero]
    exact UInt32.le_refl _
  refine ⟨by rw [hneed]; rfl, _, by rw [WireHeader.collect_complete _ _ hdone], ?_⟩
  simp [WireHeader.completed, closing, WireHeader.head, WireHeader.header, WireHeader.csid,
    Stamp.value]

/-- With all its payload, a header with a difference shows its timestamp: its own message is
complete, or a closing chunk completes it. -/
theorem feed_timestamp {core : ParserCore} {w : WireHeader} (hs : Sane core)
    (hfit : w.Fits core.streams) (hd : w.delta ≠ 0) {payload tail : List UInt8}
    (hp : payload.length = (w.need core).toNat)
    (htail : (tail = [] ∧
        (w.head core).messageLength ≤ (w.stream core).bytesReceived + w.need core) ∨
      (¬ (w.head core).messageLength ≤ (w.stream core).bytesReceived + w.need core ∧
        ∃ r : U24, r.1 = (w.stream core).bytesReceived + w.need core ∧
          tail = (closing w.basic r).bytes)) :
    ∃ chunk, (chunkDecoder.feed (core, []) (w.bytes ++ payload ++ tail)).2 = [chunk] ∧
      chunk.header.timestamp = (w.head core).timestamp := by
  have hunit := Decoder.Run.single (chunkStep_unit hfit hp)
  rcases htail with ⟨rfl, hdone⟩ | ⟨hdone, r, hr, rfl⟩
  · refine ⟨w.completed core payload, ?_, rfl⟩
    rw [List.append_nil, feed_chunks hunit, w.collect_complete core hdone]
  · -- the message is not complete, and the closing chunk finds what it has received
    have hstream : ((w.collect core payload).1.streams w.basic.csid)
        = w.grown core payload := by
      rw [w.collect_incomplete core hdone, head_csid_of_delta hd]
      exact Function.update_self ..
    have hcore := hs.collect (w := w) hp
    obtain ⟨hneed, chunk, hout, hts⟩ := collect_closing hcore w.basic r (by rw [hstream, hr]; rfl)
    have hclose := Decoder.Run.single
      (@chunkStep_unit (closing w.basic r) (w.collect core payload).1 trivial [] hneed.symm)
    refine ⟨chunk, ?_, ?_⟩
    · have hboth := hunit.trans hclose
      rw [List.append_nil] at hboth
      have hfirst : (w.collect core payload).2 = [] := by rw [w.collect_incomplete core hdone]
      rw [feed_chunks hboth, hfirst, List.nil_append, hout]
    · rw [hts, hstream]
      simp only [WireHeader.grown, hs.stream_eq, head_csid_of_delta hd]
      exact update_timestamp_of_delta hd

/-- **A difference that is added twice shows in some continuation**: there are bytes after which
the parser that has already recorded the header hands over a later message. -/
theorem exists_continuation {core : ParserCore} {w : WireHeader} (hs : Sane core)
    (hfit : w.Fits core.streams) (hd : w.delta ≠ 0) {payload : List UInt8}
    (hp : payload.length < (w.need core).toNat) :
    ∃ b chunk chunk', (chunkDecoder.feed (core, w.bytes ++ payload) b).2 = [chunk] ∧
      (chunkDecoder.feed (w.opened core, w.bytes ++ payload) b).2 = [chunk'] ∧
      chunk'.header.timestamp = chunk.header.timestamp + w.delta := by
  have hso := hs.opened w
  have hhead := head_opened hs hd
  have hstream : (w.stream (w.opened core)).bytesReceived = (w.stream core).bytesReceived := by
    rw [hso.stream_eq, hs.stream_eq, hs.opened_eq]
    simp only [WireHeader.update_bytesReceived, head_csid_of_delta hd]
  have hneed : w.need (w.opened core) = w.need core := by
    simp only [WireHeader.need, bytesToRead, hstream, hhead]
    rfl
  have hlength : (w.head (w.opened core)).messageLength = (w.head core).messageLength := by
    rw [hhead]
  have hfit' : w.Fits (w.opened core).streams := by
    rw [hs.opened_eq]
    exact hfit.update
  -- the rest of the payload, and a closing chunk if the message is still not complete
  let filler := List.replicate ((w.need core).toNat - payload.length) (0 : UInt8)
  have hfiller : (payload ++ filler).length = (w.need core).toNat := by
    simp only [filler, List.length_append, List.length_replicate]
    omega
  have hcontinue : ∀ tail : List UInt8,
      ((tail = [] ∧
          (w.head core).messageLength ≤ (w.stream core).bytesReceived + w.need core) ∨
        (¬ (w.head core).messageLength ≤ (w.stream core).bytesReceived + w.need core ∧
          ∃ r : U24, r.1 = (w.stream core).bytesReceived + w.need core ∧
            tail = (closing w.basic r).bytes)) →
      ∃ b chunk chunk', (chunkDecoder.feed (core, w.bytes ++ payload) b).2 = [chunk] ∧
        (chunkDecoder.feed (w.opened core, w.bytes ++ payload) b).2 = [chunk'] ∧
        chunk'.header.timestamp = chunk.header.timestamp + w.delta := by
    intro tail htail
    obtain ⟨chunk, hout, hts⟩ := feed_timestamp hs hfit hd hfiller htail
    obtain ⟨chunk', hout', hts'⟩ := @feed_timestamp _ _ hso hfit' hd
      (payload ++ filler) tail (by rw [hneed, hfiller])
      (by rw [hneed, hstream, hlength]; exact htail)
    refine ⟨filler ++ tail, chunk, chunk', ?_, ?_, ?_⟩
    · simpa [Decoder.feed] using hout
    · simpa [Decoder.feed] using hout'
    · rw [hts', hts, hhead]
  by_cases hdone : (w.head core).messageLength ≤ (w.stream core).bytesReceived + w.need core
  · exact hcontinue [] (.inl ⟨rfl, hdone⟩)
  · have hlt : ((w.stream core).bytesReceived + w.need core).toNat < 2 ^ 24 := by
      have := UInt32.lt_iff_toNat_lt.1 (UInt32.not_le.1 hdone)
      have := hs.head_length_lt (w := w)
      omega
    exact hcontinue _ (.inr ⟨hdone, ⟨_, hlt⟩, rfl, rfl⟩)

/-! ### What a list of reads delivers -/

/-- What is handed over of a message. -/
structure Delivered where
  chunkStreamId : UInt32
  timestamp : UInt32
  messageLength : UInt32
  messageTypeId : UInt8
  messageStreamId : UInt32
  payload : List UInt8
  deriving DecidableEq, Repr

def Chunk.delivered (chunk : Chunk) : Delivered where
  chunkStreamId := chunk.header.chunkStreamId
  timestamp := chunk.header.timestamp
  messageLength := chunk.header.messageLength
  messageTypeId := chunk.header.messageTypeId
  messageStreamId := chunk.header.messageStreamId
  payload := chunk.payload

/-- What a list of calls of `parse` makes a fresh parser hand over, and the chunk size at the
end. -/
def deliver (n : UInt32) (reads : List (List UInt8)) : Except Failure (List Delivered × UInt32) :=
  ((ChunkParser.new n).parseAll reads).map fun r => (r.2.map Chunk.delivered, r.1.chunkSize)

/-- What has been received ends inside a chunk whose header carries a difference other than zero:
the header is there, the payload is not. -/
def CutInsideDelta (n : UInt32) (received : List UInt8) : Prop :=
  ∃ pieces out core, ∃ w : WireHeader, ∃ payload,
    received = pieces.flatMap Piece.bytes ++ (w.bytes ++ payload) ∧
    WholeChunks (ChunkParser.new n).toParserCore pieces out core ∧ w.Fits core.streams ∧
    payload.length < (w.need core).toNat ∧ w.delta ≠ 0

/-- `parseAll` feeds the decoder. -/
theorem ChunkParser.parseAll_eq (p : ChunkParser) (reads : List (List UInt8)) :
    p.parseAll reads =
      .ok ({ (chunkDecoder.feedAll (p.toParserCore, p.buffer) reads).1.1 with
              buffer := (chunkDecoder.feedAll (p.toParserCore, p.buffer) reads).1.2 },
        (chunkDecoder.feedAll (p.toParserCore, p.buffer) reads).2) := by
  induction reads generalizing p with
  | nil => rfl
  | cons data reads ih =>
      have hparse := p.parse_eq data
      simp only [parseAll, hparse, ih, Decoder.feedAll_cons]
      rfl

/-- The state of a fresh parser, as the decoder has it. -/
abbrev fresh (n : UInt32) : ParserCore × List UInt8 := ((ChunkParser.new n).toParserCore, [])

theorem deliver_eq (n : UInt32) (reads : List (List UInt8)) :
    deliver n reads = .ok ((chunkDecoder.feedAll (fresh n) reads).2.map Chunk.delivered,
      (chunkDecoder.feedAll (fresh n) reads).1.1.chunkSize) := by
  rw [deliver, ChunkParser.parseAll_eq]
  rfl

theorem quietEnd_of_not_cutInsideDelta {n : UInt32} {received : List UInt8}
    (h : ¬ CutInsideDelta n received) : chunkDecoder.QuietEnd (fresh n) received := by
  obtain ⟨bytes, hbytes, hrun, hwait⟩ :=
    chunkDecoder.drain_spec (fresh n).1 ((fresh n).2 ++ received)
  intro ys
  rcases chunkStep_wait hwait with ⟨-, heq⟩ | ⟨w, payload, hfit, hrest, hlt, heq⟩
  · rw [heq]
  · obtain ⟨pieces, rfl, hpieces⟩ := Run.wholeChunks hrun
    have hdelta : w.delta = 0 := by
      by_contra hd
      exact h ⟨pieces, _, _, w, payload, by rw [← hrest, ← hbytes]; rfl, hpieces, hfit, hlt, hd⟩
    rw [heq, hrest, List.append_assoc]
    exact quiet_of_delta_eq_zero ((Sane.new n).run hrun) hfit hdelta (payload ++ ys)

/-- Without such a cut, reads are one read of all of them. -/
theorem feedAll_of_not_cutInsideDelta {n : UInt32} {reads : List (List UInt8)}
    (h : ∀ r₁ r₂, reads = r₁ ++ r₂ → r₂ ≠ [] → ¬ CutInsideDelta n r₁.flatten) :
    chunkDecoder.feedAll (fresh n) reads = chunkDecoder.feed (fresh n) reads.flatten :=
  chunkDecoder.feedAll_flatten (feed_nil (fresh n).1) fun r₁ r₂ hr hne =>
    quietEnd_of_not_cutInsideDelta (h r₁ r₂ hr hne)

/-- After a cut inside such a chunk, some continuation is delivered otherwise than uncut. -/
theorem exists_deliver_ne {n : UInt32} {reads : List (List UInt8)}
    (hbefore : ∀ r₁ r₂, reads = r₁ ++ r₂ → r₂ ≠ [] → ¬ CutInsideDelta n r₁.flatten)
    (hcut : CutInsideDelta n reads.flatten) :
    ∃ b, deliver n (reads ++ [b]) ≠ deliver n [reads.flatten ++ b] := by
  obtain ⟨pieces, out, core, w, payload, hbytes, hpieces, hfit, hlt, hd⟩ := hcut
  have hs : Sane core := (Sane.new n).run hpieces.run
  obtain ⟨b, chunk, chunk', hout, hout', hts⟩ := exists_continuation hs hfit hd hlt
  -- uncut, the chunk is decoded once
  have huncut : (chunkDecoder.feedAll (fresh n) [reads.flatten ++ b]).2 = out ++ [chunk] := by
    have hfeed := hpieces.run.feed [] (reads.flatten ++ b)
      (w.bytes ++ payload ++ b) (by rw [hbytes]; simp)
    rw [Decoder.feedAll_cons, hfeed, Decoder.feedAll_nil, List.append_nil, ← hout]
    simp [Decoder.feed]
  -- cut, it is decoded a second time, by the parser that has recorded its header
  have hcut : (chunkDecoder.feedAll (fresh n) (reads ++ [b])).2 = out ++ [chunk'] := by
    have hwait : chunkDecoder.step core ([] ++ (w.bytes ++ payload)) = .wait (w.opened core) := by
      rw [List.nil_append, chunkDecoder_step, chunkStep_bytes hfit, if_pos hlt]
    have hfeed := hpieces.run.feed [] reads.flatten (w.bytes ++ payload)
      (by rw [hbytes]; simp)
    rw [chunkDecoder.feed_wait hwait, List.append_nil, List.nil_append] at hfeed
    rw [Decoder.feedAll_append, feedAll_of_not_cutInsideDelta hbefore, hfeed,
      Decoder.feedAll_cons, Decoder.feedAll_nil, List.append_nil, hout']
  refine ⟨b, fun heq => hd ?_⟩
  rw [deliver_eq, deliver_eq, hcut, huncut] at heq
  simp only [Except.ok.injEq, Prod.mk.injEq, List.map_append, List.append_cancel_left_eq,
    List.map_cons, List.map_nil, List.cons.injEq, and_true] at heq
  have hsame := congrArg Delivered.timestamp heq.1
  simp only [Chunk.delivered, hts] at hsame
  exact left_eq_add.1 hsame.symm

/-- **The cuts cannot be observed exactly if none falls inside a chunk of format 1 or 2 with a
difference.**  Two ways of cutting the same bytes, neither of which cuts inside such a chunk, are
delivered alike; and every continuation of what has been received so far is delivered as if it had
come in one read, after each read, exactly if no read ended inside such a chunk. -/
theorem deliver_cuts (n : UInt32) (reads : List (List UInt8)) :
    (∀ reads', reads.flatten = reads'.flatten →
      (∀ r₁ r₂, reads = r₁ ++ r₂ → r₂ ≠ [] → ¬ CutInsideDelta n r₁.flatten) →
      (∀ r₁ r₂, reads' = r₁ ++ r₂ → r₂ ≠ [] → ¬ CutInsideDelta n r₁.flatten) →
      deliver n reads = deliver n reads') ∧
    ((∀ r₁ r₂ b, reads = r₁ ++ r₂ → deliver n (r₁ ++ [b]) = deliver n [r₁.flatten ++ b]) ↔
      ∀ r₁ r₂, reads = r₁ ++ r₂ → ¬ CutInsideDelta n r₁.flatten) := by
  refine ⟨?_, ?_, ?_⟩
  · intro reads' hflat h h'
    rw [deliver_eq, deliver_eq, feedAll_of_not_cutInsideDelta h, feedAll_of_not_cutInsideDelta h',
      hflat]
  · -- the first read that ends inside such a chunk shows
    intro h r₁
    induction hk : r₁.length using Nat.strong_induction_on generalizing r₁ with
    | _ k ih =>
        intro r₂ hr hcut
        have hbefore : ∀ q₁ q₂, r₁ = q₁ ++ q₂ → q₂ ≠ [] → ¬ CutInsideDelta n q₁.flatten := by
          intro q₁ q₂ hq hne
          have hpos := List.length_pos_of_ne_nil hne
          refine ih q₁.length ?_ q₁ rfl (q₂ ++ r₂) (by rw [hr, hq, List.append_assoc])
          rw [← hk, hq, List.length_append]
          omega
        obtain ⟨b, hb⟩ := exists_deliver_ne hbefore hcut
        exact hb (h r₁ r₂ b hr)
  · intro h r₁ r₂ b hr
    have hcut : ∀ q₁ q₂, r₁ ++ [b] = q₁ ++ q₂ → q₂ ≠ [] → ¬ CutInsideDelta n q₁.flatten := by
      intro q₁ q₂ hq hne
      obtain ⟨q, t, rfl⟩ := List.eq_nil_or_concat q₂ |>.resolve_left hne
      rw [List.concat_eq_append, ← List.append_assoc] at hq
      obtain ⟨rfl, -⟩ := List.append_inj' hq rfl
      exact h q₁ (q ++ r₂) (by rw [hr, List.append_assoc])
    rw [deliver_eq, deliver_eq, feedAll_of_not_cutInsideDelta hcut, Decoder.feedAll_cons,
      Decoder.feedAll_nil]
    simp

theorem WireHeader.four_le_of_delta {w : WireHeader} (h : w.delta ≠ 0) : 4 ≤ w.bytes.length := by
  obtain ⟨b, m⟩ := w
  have hb := b.length_bytes_pos m.fmt
  cases m with
  | fmt0 => simp [delta] at h
  | fmt1 =>
      simp only [bytes, MessageHeader.bytes, List.length_append, List.length_cons,
        Bytes.length_writeU24Be]
      omega
  | fmt2 =>
      simp only [bytes, MessageHeader.bytes, List.length_append, Bytes.length_writeU24Be]
      omega
  | fmt3 => simp [delta] at h

theorem CutInsideDelta.held {n : UInt32} {received : List UInt8} (h : CutInsideDelta n received) :
    4 ≤ ((ChunkParser.new n).parse received).1.buffer.length := by
  obtain ⟨pieces, out, core, w, payload, hbytes, hpieces, hfit, hlt, hd⟩ := h
  have hwait : chunkDecoder.step core ([] ++ (w.bytes ++ payload)) = .wait (w.opened core) := by
    rw [List.nil_append, chunkDecoder_step, chunkStep_bytes hfit, if_pos hlt]
  have hfeed := hpieces.run.feed [] received (w.bytes ++ payload) (by rw [hbytes]; simp)
  rw [chunkDecoder.feed_wait hwait, List.nil_append] at hfeed
  have hparse := (ChunkParser.new n).parse_eq received
  have hbuffer : ((ChunkParser.new n).parse received).1.buffer = w.bytes ++ payload := by
    rw [hparse]
    exact congrArg (fun r => r.1.2) hfeed
  have hfour := w.four_le_of_delta hd
  rw [hbuffer, List.length_append]
  omega

/-- A message of format 0 at time 100, and one of format 1 that is 10 later and is cut inside its header:
they are delivered as in one read. -/
theorem deliver_cuts_inside_header :
    let opening : List UInt8 := [0x03, 0, 0, 100, 0, 0, 1, 8, 0, 0, 0, 0, 0xAA]
    deliver 128 [opening ++ [0x43, 0, 0], [10, 0, 0, 2, 8, 1, 2]] =
        deliver 128 [opening ++ [0x43, 0, 0] ++ [10, 0, 0, 2, 8, 1, 2]] ∧
      deliver 128 [opening ++ [0x43, 0, 0] ++ [10, 0, 0, 2, 8, 1, 2]] =
        .ok ([⟨3, 100, 1, 8, 0, [0xAA]⟩, ⟨3, 110, 2, 8, 0, [1, 2]⟩], 128) := by
  intro opening
  have hnil : ¬ CutInsideDelta 128 [] := fun h => absurd h.held (by decide)
  have hfirst : ¬ CutInsideDelta 128 (opening ++ [0x43, 0, 0]) := fun h => absurd h.held (by decide)
  refine ⟨(deliver_cuts 128 [opening ++ [0x43, 0, 0], [10, 0, 0, 2, 8, 1, 2]]).1
    [opening ++ [0x43, 0, 0] ++ [10, 0, 0, 2, 8, 1, 2]] rfl ?_ ?_, by decide⟩
  · intro r₁ r₂ hr hne
    rcases List.cons_eq_append_iff.1 hr with ⟨rfl, -⟩ | ⟨r, rfl, hr'⟩
    · exact hnil
    · rcases List.cons_eq_append_iff.1 hr' with ⟨rfl, -⟩ | ⟨r', rfl, hr''⟩
      · exact hfirst
      · exact absurd (List.append_eq_nil_iff.1 hr''.symm).2 hne
  · intro r₁ r₂ hr hne
    rcases List.cons_eq_append_iff.1 hr with ⟨rfl, -⟩ | ⟨r, rfl, hr'⟩
    · exact hnil
    · exact absurd (List.append_eq_nil_iff.1 hr'.symm).2 hne

/-- A message of format 0 at time 100, and one of format 1 that is 10 later and is cut after the
first byte of its payload: uncut it is at time 110, cut at time 120. -/
theorem deliver_cut_observable :
    let opening : List UInt8 := [0x03, 0, 0, 100, 0, 0, 1, 8, 0, 0, 0, 0, 0xAA]
    let header : List UInt8 := [0x43, 0, 0, 10, 0, 0, 2, 8]
    deliver 128 [opening ++ header ++ [1], [2]] ≠ deliver 128 [opening ++ header ++ [1, 2]] := by
  decide

end Rtmp
