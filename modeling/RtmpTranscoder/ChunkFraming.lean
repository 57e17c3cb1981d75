/-
**Message lengths and bytes received.**

A header of format 0 or 1 replaces the message length of its chunk stream, and the parser does not
ask whether a message is unfinished there.  If more bytes have been received by then than the new
length announces, the subtraction that gives the bytes still missing wraps, and the message that
is handed over in the end is longer than its header says.  Nothing else upsets the bookkeeping.

Main definitions:

* `Rtmp.Visits` — the heads of the iterations of one call of `parse`;
* `Rtmp.Framed` — the bytes received are those collected, and within the length announced;
* `Rtmp.CallFramed` — one call keeps its streams framed, subtracts without wrapping, and hands
  over messages of the length announced;
* `Rtmp.KeepsLengths` — no header read during one call announces less than has been received;
* `Rtmp.AllCalls` — a property of every call that a list of reads makes.

Main results:

* `Rtmp.visits_of_run` — the iterations visit whatever a run of whole chunks leads to;
* `Rtmp.Framed.collect` — a chunk keeps the streams framed, unless its header shortens a message;
* `Rtmp.parse_framed_iff` — **the bookkeeping is right exactly if no header shortens an
  unfinished message**;
* `Rtmp.parse_shortened` — a stream on which it is not.
-/

import RtmpTranscoder.ChunkInvariants

set_option relaxedAutoImplicit false
set_option autoImplicit false

namespace Rtmp

open Incremental

/-! ### The iterations of one call -/

/-- One iteration of the loop of `parse` that goes on. -/
def Iterates (combined : List UInt8) (l l' : ParseLoop) : Prop :=
  l.offset < combined.length ∧ parseIteration combined l = .next l'

/-- `Visits p data l`: in `p.parse data`, the loop is at the head of an iteration with the
variables `l`. -/
def Visits (p : ChunkParser) (data : List UInt8) (l : ParseLoop) : Prop :=
  Relation.ReflTransGen (Iterates (p.buffer ++ data)) ⟨p, 0, 0, []⟩ l

theorem Iterates.spec {combined : List UInt8} {l l' : ParseLoop} (h : Iterates combined l l') :
    ∃ w payload rest, WireHeader.Fits w l.parser.streams ∧
      combined.drop l.offset = w.bytes ++ (payload ++ rest) ∧
      payload.length = (w.need l.parser.toParserCore).toNat ∧
      combined.drop l'.offset = rest ∧
      l'.parser.toParserCore = (w.collect l.parser.toParserCore payload).1 ∧
      l'.chunks = l.chunks ++ (w.collect l.parser.toParserCore payload).2 := by
  obtain ⟨hlt, hnext⟩ := h
  rw [parseIteration_eq combined l hlt.le] at hnext
  cases hstep : chunkStep l.parser.toParserCore (combined.drop l.offset) with
  | wait core =>
      rw [hstep] at hnext
      cases hnext
  | take n core out =>
      rw [hstep] at hnext
      obtain ⟨w, payload, rest, hfit, hdrop, hp, rfl, hc⟩ := chunkStep_take hstep
      obtain ⟨rfl, rfl⟩ := Prod.mk.inj hc
      cases hnext
      refine ⟨w, payload, rest, hfit, hdrop, hp, ?_, rfl, rfl⟩
      rw [← List.drop_drop, hdrop, ← List.append_assoc, ← List.length_append, List.drop_left]

theorem visits_of_run {p : ChunkParser} {data bytes rest : List UInt8} {out : List Chunk}
    {core : ParserCore} (hr : chunkDecoder.Run p.toParserCore bytes out core)
    (hb : p.buffer ++ data = bytes ++ rest) :
    ∃ l, Visits p data l ∧ l.parser.toParserCore = core ∧ l.chunks = out ∧
      (p.buffer ++ data).drop l.offset = rest := by
  -- from any loop head, by induction on the run
  have hrun : ∀ {core core' : ParserCore} {bytes : List UInt8} {out : List Chunk},
      chunkDecoder.Run core bytes out core' → ∀ l : ParseLoop, l.parser.toParserCore = core →
      (p.buffer ++ data).drop l.offset = bytes ++ rest →
      ∃ l', Relation.ReflTransGen (Iterates (p.buffer ++ data)) l l' ∧
        l'.parser.toParserCore = core' ∧ l'.chunks = l.chunks ++ out ∧
        (p.buffer ++ data).drop l'.offset = rest := by
    intro core core' bytes out hr
    induction hr with
    | nil core =>
        intro l hl hdrop
        exact ⟨l, .refl, hl, by simp, by simpa using hdrop⟩
    | @cons core core₁ core₂ u v out out' hu _ ih =>
        intro l hl hdrop
        have hpos := chunkDecoder.take_pos hu
        have hlt : l.offset < (p.buffer ++ data).length := by
          have := congrArg List.length hdrop
          simp only [List.length_drop, List.length_append] at this
          rw [List.length_append]
          omega
        have hstep := chunkDecoder.take_append hu (v ++ rest)
        rw [← List.append_assoc, ← hdrop, ← hl, chunkDecoder_step] at hstep
        have hiter := parseIteration_eq (p.buffer ++ data) l hlt.le
        simp only [hstep] at hiter
        have hrest : (p.buffer ++ data).drop (l.offset + u.length) = v ++ rest := by
          rw [← List.drop_drop, hdrop, List.append_assoc, List.drop_left]
        obtain ⟨l', hreach, hcore, hchunks, hdrop'⟩ := ih
          { parser := { core₁ with buffer := l.parser.buffer }, offset := l.offset + u.length,
            lastGoodOffset := l.offset + u.length, chunks := l.chunks ++ out } rfl hrest
        refine ⟨l', .head ⟨hlt, hiter⟩ hreach, hcore, ?_, hdrop'⟩
        rw [hchunks, List.append_assoc]
  obtain ⟨l, hreach, hcore, hchunks, hdrop⟩ := hrun hr ⟨p, 0, 0, []⟩ rfl hb
  exact ⟨l, hreach, hcore, by simpa using hchunks, hdrop⟩

/-! ### The bookkeeping -/

/-- The bytes received are those collected, and they are within the length announced. -/
def Framed (core : ParserCore) : Prop :=
  ∀ c, (core.streams c).bytesReceived.toNat = (core.streams c).partialMessage.length ∧
    (core.streams c).bytesReceived ≤ (core.streams c).prevHeader.messageLength

/-- The header announces a message that is shorter than what has been received of it. -/
def WireHeader.Shortens (w : WireHeader) (core : ParserCore) : Prop :=
  match w.message with
  | .fmt0 _ length _ _ => length.1 < (core.streams w.csid).bytesReceived
  | .fmt1 _ length _ => length.1 < (core.streams w.csid).bytesReceived
  | _ => False

namespace Framed

variable {core : ParserCore} {w : WireHeader}

theorem new (n : UInt32) : Framed (ChunkParser.new n).toParserCore := by
  intro c
  exact ⟨rfl, UInt32.le_refl _⟩

/-- What has been received on the stream of a header is within the length of the header. -/
theorem received_le (h : Framed core) (hs : Sane core) (hw : ¬ w.Shortens core) :
    (w.stream core).bytesReceived ≤ (w.head core).messageLength := by
  rw [hs.stream_eq, WireHeader.update_bytesReceived]
  rcases hs.head_own (w := w) with hown | ⟨hzero, -⟩
  · rw [hown]
    obtain ⟨b, m⟩ := w
    cases m with
    | fmt0 stamp length typeId streamId => exact UInt32.not_lt.1 hw
    | fmt1 stamp length typeId => exact UInt32.not_lt.1 hw
    | fmt2 stamp => exact (h b.csid).2
    | fmt3 ext => cases ext <;> exact (h b.csid).2
  · rw [hzero, hs.zero]
    simp [UInt32.le_iff_toNat_le]

theorem update (h : Framed core) (hw : ¬ w.Shortens core) :
    Framed { core with streams := w.update core.streams } := by
  intro c
  simp only [w.update_bytesReceived, w.update_partialMessage]
  refine ⟨(h c).1, ?_⟩
  by_cases hc : c = w.csid
  · subst hc
    obtain ⟨b, m⟩ := w
    rw [WireHeader.update_self]
    cases m with
    | fmt0 stamp length typeId streamId => exact UInt32.not_lt.1 hw
    | fmt1 stamp length typeId => exact UInt32.not_lt.1 hw
    | fmt2 stamp => exact (h b.csid).2
    | fmt3 ext => exact (h b.csid).2
  · rw [w.update_of_ne core.streams hc]
    exact (h c).2

theorem length_completed (h : Framed core) (hs : Sane core) (hw : ¬ w.Shortens core)
    {payload : List UInt8} (hp : payload.length = (w.need core).toNat)
    (hdone : (w.head core).messageLength ≤ (w.stream core).bytesReceived + w.need core) :
    (w.completed core payload).payload.length = (w.head core).messageLength.toNat := by
  have hle := h.received_le hs hw
  have hpartial : (w.stream core).partialMessage.length = (w.stream core).bytesReceived.toNat := by
    rw [hs.stream_eq, w.update_partialMessage, w.update_bytesReceived]
    exact hs.received _
  have hmissing : (w.need core).toNat
      ≤ (w.head core).messageLength.toNat - (w.stream core).bytesReceived.toNat := by
    rw [WireHeader.need, bytesToRead, UInt32.toNat_min, UInt32.toNat_sub_of_le _ _ hle]
    exact Nat.min_le_right _ _
  rw [UInt32.le_iff_toNat_le] at hle hdone
  rw [hs.toNat_received] at hdone
  simp only [WireHeader.completed, List.length_append, hp, hpartial]
  omega

/-- **A chunk keeps the streams framed**, and hands over a message of the length announced, unless
its header shortens a message. -/
theorem collect (h : Framed core) (hs : Sane core) (hw : ¬ w.Shortens core)
    {payload : List UInt8} (hp : payload.length = (w.need core).toNat) :
    Framed (w.collect core payload).1 ∧ ∀ chunk ∈ (w.collect core payload).2,
      chunk.payload.length = chunk.header.messageLength.toNat := by
  have hupdate := h.update hw
  have hsane := hs.collect (w := w) hp
  refine ⟨fun c => ⟨(hsane.received c).symm, ?_⟩, ?_⟩
  · by_cases hc : c = (w.head core).chunkStreamId
    · subst hc
      by_cases hdone : (w.head core).messageLength ≤ (w.stream core).bytesReceived + w.need core
      · rw [w.collect_complete core hdone]
        simp [UInt32.le_iff_toNat_le]
      · -- on its own stream, the length of the header is the one remembered
        have hlength : (w.update core.streams (w.head core).chunkStreamId).prevHeader.messageLength
            = (w.head core).messageLength := by
          rcases hs.head_own (w := w) with hown | ⟨-, hzero⟩
          · rw [hown, WireHeader.update_self]
            obtain ⟨b, m⟩ := w
            cases m with
            | fmt0 => rfl
            | fmt1 => rfl
            | fmt2 => rfl
            | fmt3 ext => cases ext <;> rfl
          · rw [hzero] at hdone
            exact absurd (by simp [UInt32.le_iff_toNat_le]) hdone
        have hlt := UInt32.le_of_lt (UInt32.not_le.1 hdone)
        rw [w.collect_incomplete core hdone]
        simp only [Function.update_self, WireHeader.grown]
        rw [← hlength] at hlt
        simpa only [hs.stream_eq] using hlt
    · have hother : ((w.collect core payload).1.streams c) = w.update core.streams c := by
        by_cases hdone : (w.head core).messageLength
            ≤ (w.stream core).bytesReceived + w.need core
        · rw [w.collect_complete core hdone]
          exact Function.update_of_ne hc _ _
        · rw [w.collect_incomplete core hdone]
          exact Function.update_of_ne hc _ _
      rw [hother]
      exact (hupdate c).2
  · intro chunk hmem
    by_cases hdone : (w.head core).messageLength ≤ (w.stream core).bytesReceived + w.need core
    · rw [w.collect_complete core hdone] at hmem
      obtain rfl := List.mem_singleton.1 hmem
      exact h.length_completed hs hw hp hdone
    · rw [w.collect_incomplete core hdone] at hmem
      exact absurd hmem List.not_mem_nil

end Framed

/-! ### Calls of `parse` -/

/-- During one call the streams stay framed, at the head of every iteration and at the end; the
subtraction of the bytes received from the length does not wrap; and every message handed over has
the length its header announces. -/
def CallFramed (p : ChunkParser) (data : List UInt8) : Prop :=
  (∃ p' consumed chunks, p.parse data = (p', consumed, .ok chunks) ∧ Framed p'.toParserCore ∧
    ∀ chunk ∈ chunks, chunk.payload.length = chunk.header.messageLength.toNat) ∧
  ∀ l, Visits p data l → Framed l.parser.toParserCore ∧
    ∀ header size streams,
      parseHeader l.parser.streams ((p.buffer ++ data).drop l.offset) = .ok (header, size, streams) →
      (streams header.chunkStreamId).bytesReceived ≤ header.messageLength

/-- No header of format 0 or 1 that is read during the call announces a length below the number
of bytes already received of an unfinished message on its chunk stream. -/
def KeepsLengths (p : ChunkParser) (data : List UInt8) : Prop :=
  ∀ l w rest, Visits p data l → (p.buffer ++ data).drop l.offset = WireHeader.bytes w ++ rest →
    w.Fits l.parser.streams → ¬ w.Shortens l.parser.toParserCore

/-- A property of every call of `parse` that a list of reads makes. -/
def AllCalls (P : ChunkParser → List UInt8 → Prop) : ChunkParser → List (List UInt8) → Prop
  | _, [] => True
  | p, data :: reads => P p data ∧ AllCalls P (p.parse data).1 reads

/-- The heads of all iterations are sane and framed, and what has been handed over has the length
announced. -/
theorem KeepsLengths.visits {p : ChunkParser} {data : List UInt8} (h : KeepsLengths p data)
    (hs : Sane p.toParserCore) (hf : Framed p.toParserCore) {l : ParseLoop} (hl : Visits p data l) :
    Sane l.parser.toParserCore ∧ Framed l.parser.toParserCore ∧
      ∀ chunk ∈ l.chunks, chunk.payload.length = chunk.header.messageLength.toNat := by
  induction hl with
  | refl => exact ⟨hs, hf, fun _ hmem => absurd hmem List.not_mem_nil⟩
  | @tail l l' hl hstep ih =>
      obtain ⟨ihs, ihf, ihc⟩ := ih
      obtain ⟨w, payload, rest, hfit, hdrop, hp, -, hcore, hchunks⟩ := hstep.spec
      have hw := h l w (payload ++ rest) hl hdrop hfit
      have hcollect := ihf.collect ihs hw hp
      rw [hcore, hchunks]
      refine ⟨ihs.collect hp, hcollect.1, fun chunk hmem => ?_⟩
      rcases List.mem_append.1 hmem with hbefore | hnew
      · exact ihc chunk hbefore
      · exact hcollect.2 chunk hnew

/-- **One call keeps its streams framed exactly if no header shortens an unfinished message.** -/
theorem callFramed_iff {p : ChunkParser} (hs : Sane p.toParserCore) (hf : Framed p.toParserCore)
    (data : List UInt8) : CallFramed p data ↔ KeepsLengths p data := by
  constructor
  · -- a header that shortens its message makes the subtraction wrap
    rintro ⟨-, h⟩ l w rest hl hdrop hfit hw
    have hread := parseHeader_bytes hfit rest
    rw [← hdrop] at hread
    have hle := (h l hl).2 _ _ _ hread
    rw [w.update_bytesReceived] at hle
    obtain ⟨b, m⟩ := w
    cases m with
    | fmt0 stamp length typeId streamId => exact UInt32.not_lt.2 hle hw
    | fmt1 stamp length typeId => exact UInt32.not_lt.2 hle hw
    | fmt2 stamp => exact hw
    | fmt3 ext => exact hw
  · intro h
    constructor
    · obtain ⟨bytes, hbytes, hrun, hwait⟩ :=
        chunkDecoder.drain_spec p.toParserCore (p.buffer ++ data)
      obtain ⟨l, hl, hcore, hchunks, hdrop⟩ := visits_of_run hrun hbytes
      obtain ⟨-, hlf, hlc⟩ := h.visits hs hf hl
      rw [hchunks] at hlc
      refine ⟨_, _, _, p.parse_eq data, ?_, hlc⟩
      -- the state the call leaves behind is the last one, or the last one with a header recorded
      rcases chunkStep_wait hwait with ⟨-, heq⟩ | ⟨w, payload, hfit, hrest, -, heq⟩
      · simp only [Decoder.feed, heq]
        exact hcore ▸ hlf
      · have hstop : Sane (chunkDecoder.drain p.toParserCore (p.buffer ++ data)).stop :=
          hs.run hrun
        simp only [Decoder.feed, heq]
        rw [← hcore] at hfit hstop
        have hw := h l w payload hl (hdrop.trans hrest) hfit
        rw [← hcore, hstop.opened_eq]
        exact hlf.update hw
    · intro l hl
      obtain ⟨hls, hlf, -⟩ := h.visits hs hf hl
      refine ⟨hlf, fun header size streams hread => ?_⟩
      rcases parseHeader_cases l.parser.streams ((p.buffer ++ data).drop l.offset) with
        ⟨w, rest, hfit, hdrop⟩ | ⟨text, -, -, herr⟩
      · have hw := h l w rest hl hdrop hfit
        rw [hdrop, parseHeader_bytes hfit] at hread
        cases hread
        have hle := hlf.received_le hls hw
        rwa [hls.stream_eq] at hle
      · rw [herr] at hread
        cases hread

/-- **The bookkeeping is right exactly if no header shortens an unfinished message**: over any run
of calls of `parse` on a fresh parser, every call keeps the streams framed, subtracts without
wrapping and hands over messages of the length announced if and only if no header of format 0 or 1
read in the run announces a length below the bytes already received of the message it
continues. -/
theorem parse_framed_iff (n : UInt32) (reads : List (List UInt8)) :
    AllCalls CallFramed (ChunkParser.new n) reads
      ↔ AllCalls KeepsLengths (ChunkParser.new n) reads := by
  have hcalls : ∀ p : ChunkParser, Sane p.toParserCore → Framed p.toParserCore →
      (AllCalls CallFramed p reads ↔ AllCalls KeepsLengths p reads) := by
    induction reads with
    | nil => intro p _ _; exact Iff.rfl
    | cons data reads ih =>
        intro p hs hf
        have hsane : Sane (p.parse data).1.toParserCore := by
          rw [p.parse_eq data]
          exact Sane.feed (c := (p.toParserCore, p.buffer)) hs data
        -- either side makes the state after the call framed
        have hnext : CallFramed p data → Framed (p.parse data).1.toParserCore := by
          rintro ⟨⟨p', consumed, chunks, heq, hf', -⟩, -⟩
          rw [heq]
          exact hf'
        simp only [AllCalls]
        rw [← callFramed_iff hs hf data]
        exact and_congr_right fun h => ih _ hsane (hnext h)
  exact hcalls _ (Sane.new n) (Framed.new n)

/-- With chunks of two bytes: a message of five bytes, of which two have arrived, is announced
again as one of one byte, and then handed over with four. -/
theorem parse_shortened :
    ¬ ∀ n reads, (1 : UInt32) ≤ n → AllCalls CallFramed (ChunkParser.new n) reads := by
  intro h
  obtain ⟨⟨⟨p', consumed, chunks, hparse, -, hlength⟩, -⟩, -⟩ := h 2
    [[0x03, 0, 0, 0, 0, 0, 5, 8, 0, 0, 0, 0, 0xA0, 0xA1, 0x43, 0, 0, 0, 0, 0, 1, 8, 0xA2, 0xA3]]
    (by decide)
  have hchunks : ((ChunkParser.new 2).parse
      [0x03, 0, 0, 0, 0, 0, 5, 8, 0, 0, 0, 0, 0xA0, 0xA1, 0x43, 0, 0, 0, 0, 0, 1, 8, 0xA2, 0xA3]).2.2
      = .ok [⟨{ fmt := 1, chunkStreamId := 3, messageLength := 1, messageTypeId := 8 },
          [0xA0, 0xA1, 0xA2, 0xA3]⟩] := by
    decide
  rw [hparse] at hchunks
  cases hchunks
  exact absurd (hlength _ (List.mem_singleton.2 rfl)) (by decide)

end Rtmp
