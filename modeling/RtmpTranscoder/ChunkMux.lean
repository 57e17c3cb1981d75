/-
**Chunk streams do not influence each other.**

The chunks of several messages may be interleaved, each on its own chunk stream.  What the parser
remembers is kept by chunk stream id, and only two things are shared: the chunk size, which a
`SetChunkSize` changes for all of them, and the buffer, which is empty between whole chunks.  So
the messages of one chunk stream are those of its own chunks, whatever comes in between.

A message belongs to the chunk stream of the chunk that completes it.  Its header says the same,
except that a format 3 chunk that is the first on its stream is handed over under the id 0, which
no chunk can carry.

Main definitions:

* `Rtmp.blockId` — the chunk stream id of a block of bytes;
* `Rtmp.ConsumesOneChunk` — a block is exactly one chunk;
* `Rtmp.emitted` — the messages that blocks make the parser hand over, with the id of the block;
* `Rtmp.Agree` — two parsers agree on one chunk stream.

Main results:

* `Rtmp.Agree.same`, `Rtmp.Agree.other` — a chunk on the stream keeps two parsers agreeing if both
  are given it, and one on another stream even if only one is;
* `Rtmp.parse_multiplexed` — **the messages of a chunk stream are those of its own blocks**.
-/

import RtmpTranscoder.ChunkFraming

set_option relaxedAutoImplicit false
set_option autoImplicit false

namespace Rtmp

open Incremental

/-! ### Blocks -/

def blockId (block : List UInt8) : Option UInt32 :=
  match byteAt block 0 with
  | .error _ => none
  | .ok first =>
      match parseChunkStreamId block (first &&& 0x3F).toUInt32 with
      | .error _ => none
      | .ok (chunkStreamId, _) => some chunkStreamId

theorem blockId_bytes (w : WireHeader) (rest : List UInt8) :
    blockId (w.bytes ++ rest) = some w.csid := by
  obtain ⟨first, hfirst, -, hcsid⟩ :=
    w.basic.parse_bytes w.message.toNat_fmt_lt (w.message.bytes ++ rest)
  rw [← List.append_assoc, ← WireHeader.bytes] at hfirst hcsid
  simp only [blockId, hfirst, hcsid]
  rfl

/-- The parser, with nothing buffered, consumes the block as exactly one chunk: one iteration of
the loop takes all of it. -/
def ConsumesOneChunk (p : ChunkParser) (block : List UInt8) : Prop :=
  p.buffer = [] ∧ ∃ l, Iterates block ⟨p, 0, 0, []⟩ l ∧ l.offset = block.length

/-- The messages that blocks make the parser hand over, each with the chunk stream id of the block
that completes it. -/
def emitted (p : ChunkParser) : List (List UInt8) → List (Option UInt32 × Chunk)
  | [] => []
  | block :: blocks =>
      let messages := match (p.parse block).2.2 with
        | .ok chunks => chunks.map fun chunk => (blockId block, chunk)
        | .error _ => []
      messages ++ emitted (p.parse block).1 blocks

/-- A block that is one chunk is a header that fits, with the payload it calls for. -/
theorem consumesOneChunk_iff {p : ChunkParser} {block : List UInt8} :
    ConsumesOneChunk p block ↔ p.buffer = [] ∧ ∃ w payload, block = WireHeader.bytes w ++ payload ∧
      w.Fits p.streams ∧ payload.length = (w.need p.toParserCore).toNat := by
  refine and_congr_right fun hp => ⟨?_, ?_⟩
  · rintro ⟨l, hl, hoff⟩
    obtain ⟨w, payload, rest, hfit, hdrop, hlen, hrest, -, -⟩ := hl.spec
    rw [hoff, List.drop_length] at hrest
    rw [← hrest, List.append_nil] at hdrop
    exact ⟨w, payload, hdrop, hfit, hlen⟩
  · rintro ⟨w, payload, rfl, hfit, hlen⟩
    have hiter := parseIteration_eq (w.bytes ++ payload) ⟨p, 0, 0, []⟩ (Nat.zero_le _)
    have hstep := chunkStep_unit hfit hlen
    have hpos := w.length_bytes_pos
    rw [chunkDecoder_step] at hstep
    simp only [List.drop_zero, hstep, Nat.zero_add] at hiter
    refine ⟨_, ⟨?_, hiter⟩, rfl⟩
    rw [List.length_append]
    simp only
    omega

theorem parse_one {p : ChunkParser} (hp : p.buffer = []) {w : WireHeader} {payload : List UInt8}
    (hfit : w.Fits p.streams) (hlen : payload.length = (w.need p.toParserCore).toNat) :
    p.parse (w.bytes ++ payload) =
      (⟨(w.collect p.toParserCore payload).1, []⟩, (w.bytes ++ payload).length,
        .ok (w.collect p.toParserCore payload).2) :=
  ChunkParser.parse_run hp (Decoder.Run.single (chunkStep_unit hfit hlen))

/-! ### Two parsers that agree on a chunk stream -/

/-- Two parsers agree on the chunk stream `c`. -/
structure Agree (c : UInt32) (core core' : ParserCore) : Prop where
  chunkSize : core.chunkSize = core'.chunkSize
  stream : core.streams c = core'.streams c

namespace Agree

variable {c : UInt32} {core core' : ParserCore} {w : WireHeader} {payload : List UInt8}

theorem head_eq (h : Agree w.csid core core') : w.head core = w.head core' := by
  simp only [WireHeader.head, h.stream]

theorem stream_eq (h : Agree w.csid core core') (hs : Sane core) (hs' : Sane core') :
    w.stream core = w.stream core' := by
  rw [hs.stream_eq, hs'.stream_eq, ← h.head_eq]
  rcases hs.head_own (w := w) with hown | ⟨hzero, -⟩
  · rw [hown, w.update_self, w.update_self, h.stream]
  · have hne : (0 : UInt32) ≠ w.csid := Ne.symm w.csid_ne_zero
    rw [hzero, w.update_of_ne _ hne, w.update_of_ne _ hne, hs.zero, hs'.zero]

theorem need_eq (h : Agree w.csid core core') (hs : Sane core) (hs' : Sane core') :
    w.need core = w.need core' := by
  simp only [WireHeader.need, h.chunkSize, h.head_eq, h.stream_eq hs hs']

theorem fits (h : Agree w.csid core core') (hfit : w.Fits core.streams) :
    w.Fits core'.streams := by
  obtain ⟨b, m⟩ := w
  cases m with
  | fmt0 => trivial
  | fmt1 => trivial
  | fmt2 => trivial
  | fmt3 ext =>
      have hstream : core.streams b.csid = core'.streams b.csid := h.stream
      simp only [WireHeader.Fits, WireHeader.csid, hstream] at hfit ⊢
      exact hfit

/-- A chunk on the stream, given to both, is answered alike and keeps them agreeing. -/
theorem same (payload : List UInt8) (h : Agree w.csid core core') (hs : Sane core) (hs' : Sane core') :
    (w.collect core payload).2 = (w.collect core' payload).2 ∧
      Agree w.csid (w.collect core payload).1 (w.collect core' payload).1 := by
  have hhead := h.head_eq
  have hstream := h.stream_eq hs hs'
  have hneed := h.need_eq hs hs'
  have hupdate : w.update core.streams w.csid = w.update core'.streams w.csid := by
    rw [w.update_self, w.update_self, h.stream]
  by_cases hdone : (w.head core).messageLength ≤ (w.stream core).bytesReceived + w.need core
  · have hdone' := hdone
    rw [hhead, hstream, hneed] at hdone'
    have hcompleted : w.completed core payload = w.completed core' payload := by
      simp only [WireHeader.completed, hhead, hstream]
    rw [w.collect_complete core hdone, w.collect_complete core' hdone', hcompleted, hhead,
      h.chunkSize, hstream]
    refine ⟨rfl, rfl, ?_⟩
    by_cases hown : w.csid = (w.head core').chunkStreamId
    · rw [hown]
      simp only [Function.update_self]
    · simp only [Function.update_of_ne hown, hupdate]
  · have hdone' := hdone
    rw [hhead, hstream, hneed] at hdone'
    have hgrown : w.grown core payload = w.grown core' payload := by
      simp only [WireHeader.grown, hstream, hneed]
    rw [w.collect_incomplete core hdone, w.collect_incomplete core' hdone', hgrown, hhead]
    refine ⟨rfl, h.chunkSize, ?_⟩
    by_cases hown : w.csid = (w.head core').chunkStreamId
    · rw [hown]
      simp only [Function.update_self]
    · simp only [Function.update_of_ne hown, hupdate]

/-- A chunk on another stream, given to one of them only, keeps them agreeing. -/
theorem other (h : Agree c core core') (hs : Sane core) (hc : w.csid ≠ c)
    (hno : ∀ chunk ∈ (w.collect core payload).2,
      chunk.header.messageTypeId ≠ MessageType.setChunkSize.code) :
    Agree c (w.collect core payload).1 core' where
  chunkSize := (collect_chunkSize hno).trans h.chunkSize
  stream := (hs.collect_streams_of_ne (Ne.symm hc)).trans h.stream

end Agree

/-! ### Blocks that are chunks -/

/-- In one call, blocks that are chunks are handed over as they are one by one. -/
theorem parse_flatten {p : ChunkParser} {blocks : List (List UInt8)} (hp : p.buffer = [])
    (h : AllCalls ConsumesOneChunk p blocks) :
    ∃ p', p'.buffer = [] ∧ p.parse blocks.flatten
      = (p', blocks.flatten.length, .ok ((emitted p blocks).map Prod.snd)) := by
  -- the blocks are a run of the decoder
  have hrun : ∃ core, chunkDecoder.Run p.toParserCore blocks.flatten
      ((emitted p blocks).map Prod.snd) core := by
    induction blocks generalizing p with
    | nil => exact ⟨p.toParserCore, Decoder.Run.nil _⟩
    | cons block blocks ih =>
        obtain ⟨hone, hrest⟩ := h
        obtain ⟨-, w, payload, rfl, hfit, hlen⟩ := consumesOneChunk_iff.1 hone
        have hparse := parse_one hp hfit hlen
        obtain ⟨core, hcore⟩ := ih (by rw [hparse]) hrest
        refine ⟨core, ?_⟩
        have hcons := Decoder.Run.cons (chunkStep_unit hfit hlen) (by simpa only [hparse] using hcore)
        simpa [emitted, hparse, Function.comp_def] using hcons
  obtain ⟨core, hcore⟩ := hrun
  exact ⟨_, rfl, ChunkParser.parse_run hp hcore⟩

/-- From parsers that agree on `c`, one given all blocks and one those of `c`. -/
theorem Agree.emitted {c : UInt32} {p q : ChunkParser} (h : Agree c p.toParserCore q.toParserCore)
    (hs : Sane p.toParserCore) (hs' : Sane q.toParserCore) (hq : q.buffer = [])
    {blocks : List (List UInt8)} (hone : AllCalls ConsumesOneChunk p blocks)
    (hno : ∀ m ∈ emitted p blocks, m.2.header.messageTypeId ≠ MessageType.setChunkSize.code) :
    AllCalls ConsumesOneChunk q (blocks.filter fun block => blockId block = some c) ∧
      Rtmp.emitted q (blocks.filter fun block => blockId block = some c)
        = (Rtmp.emitted p blocks).filter fun m => m.1 = some c := by
  induction blocks generalizing p q with
  | nil => exact ⟨trivial, rfl⟩
  | cons block blocks ih =>
      obtain ⟨hblock, hrest⟩ := hone
      obtain ⟨hp, w, payload, rfl, hfit, hlen⟩ := consumesOneChunk_iff.1 hblock
      have hparse := parse_one hp hfit hlen
      have hid := blockId_bytes w payload
      simp only [Rtmp.emitted, hparse, List.mem_append, List.mem_map] at hno
      have hnow : ∀ chunk ∈ (w.collect p.toParserCore payload).2,
          chunk.header.messageTypeId ≠ MessageType.setChunkSize.code :=
        fun chunk hmem => hno (blockId (w.bytes ++ payload), chunk) (.inl ⟨chunk, hmem, rfl⟩)
      have hsane := hs.collect (w := w) hlen
      rw [hparse] at hrest
      by_cases hc : w.csid = c
      · -- both are given the chunk
        subst hc
        have hfit' := h.fits hfit
        have hlen' := hlen
        rw [h.need_eq hs hs'] at hlen'
        have hparse' := parse_one hq hfit' hlen'
        obtain ⟨hout, hagree⟩ := h.same payload hs hs'
        obtain ⟨hones, hemitted⟩ := ih
          (p := ⟨(w.collect p.toParserCore payload).1, []⟩)
          (q := ⟨(w.collect q.toParserCore payload).1, []⟩)
          hagree hsane (hs'.collect hlen') rfl hrest (fun m hmem => hno m (.inr hmem))
        have hkeep : ((w.bytes ++ payload) :: blocks).filter
            (fun block => blockId block = some w.csid) = (w.bytes ++ payload) ::
              blocks.filter fun block => blockId block = some w.csid := by
          simp [hid]
        rw [hkeep]
        refine ⟨⟨consumesOneChunk_iff.2 ⟨hq, w, payload, rfl, hfit', hlen'⟩, ?_⟩, ?_⟩
        · rw [hparse']
          exact hones
        · have hall : ∀ m ∈ (w.collect q.toParserCore payload).2.map
              (fun chunk => (some w.csid, chunk)), decide (m.1 = some w.csid) = true := by
            simp
          simp only [Rtmp.emitted, hparse, hparse', hemitted, hout, List.filter_append, hid,
            List.filter_eq_self.2 hall]
      · -- the chunk is on another stream
        obtain ⟨hones, hemitted⟩ := ih
          (p := ⟨(w.collect p.toParserCore payload).1, []⟩) (q := q)
          (h.other hs hc hnow) hsane hs' hq hrest (fun m hmem => hno m (.inr hmem))
        have hdrop : ((w.bytes ++ payload) :: blocks).filter (fun block => blockId block = some c)
            = blocks.filter fun block => blockId block = some c := by
          simp [hid, hc]
        rw [hdrop]
        refine ⟨hones, ?_⟩
        simp only [Rtmp.emitted, hparse, hemitted, List.filter_append, hid]
        simp [hc]

/-- A message is labelled with the chunk stream id of the block that completes it, or with 0. -/
theorem emitted_label {p : ChunkParser} (hs : Sane p.toParserCore) {blocks : List (List UInt8)}
    (hone : AllCalls ConsumesOneChunk p blocks) :
    ∀ m ∈ emitted p blocks, m.1 = some m.2.header.chunkStreamId ∨ m.2.header.chunkStreamId = 0 := by
  induction blocks generalizing p with
  | nil =>
      intro m hm
      exact absurd hm List.not_mem_nil
  | cons block blocks ih =>
      intro m hm
      obtain ⟨hblock, hrest⟩ := hone
      obtain ⟨hp, w, payload, rfl, hfit, hlen⟩ := consumesOneChunk_iff.1 hblock
      have hparse := parse_one hp hfit hlen
      simp only [emitted, hparse, List.mem_append, List.mem_map, blockId_bytes] at hm
      rcases hm with ⟨chunk, hchunk, rfl⟩ | hm
      · have hheader : chunk.header = w.head p.toParserCore := by
          by_cases hdone : (w.head p.toParserCore).messageLength
              ≤ (w.stream p.toParserCore).bytesReceived + w.need p.toParserCore
          · rw [w.collect_complete _ hdone] at hchunk
            rw [List.mem_singleton.1 hchunk]
            rfl
          · rw [w.collect_incomplete _ hdone] at hchunk
            exact absurd hchunk List.not_mem_nil
        rw [hheader]
        rcases hs.head_own (w := w) with hown | ⟨hzero, -⟩
        · exact .inl (by rw [hown])
        · exact .inr hzero
      · rw [hparse] at hrest
        exact ih (p := ⟨(w.collect p.toParserCore payload).1, []⟩) (hs.collect hlen) hrest m hm

/-- **The messages of a chunk stream are those of its own blocks.**  Blocks each of which is exactly
one chunk, with no `SetChunkSize` among the messages they complete, hand over on every chunk stream
`c` what the blocks of `c` hand over alone: the same messages, complete with their headers, are
completed by the blocks of `c`, and, since 0 is not the id of a chunk stream, the same messages are
labelled with `c`. -/
theorem parse_multiplexed {n : UInt32} {blocks : List (List UInt8)}
    (hone : AllCalls ConsumesOneChunk (ChunkParser.new n) blocks)
    (hno : ∀ m ∈ emitted (ChunkParser.new n) blocks,
      m.2.header.messageTypeId ≠ MessageType.setChunkSize.code) (c : UInt32) :
    let own := blocks.filter fun block => blockId block = some c
    ∃ p q all mine,
      (ChunkParser.new n).parse blocks.flatten = (p, blocks.flatten.length, .ok all) ∧
      (ChunkParser.new n).parse own.flatten = (q, own.flatten.length, .ok mine) ∧
      all = (emitted (ChunkParser.new n) blocks).map Prod.snd ∧
      mine = ((emitted (ChunkParser.new n) blocks).filter fun m => m.1 = some c).map Prod.snd ∧
      (c ≠ 0 → (all.filter fun chunk => chunk.header.chunkStreamId = c)
        = mine.filter fun chunk => chunk.header.chunkStreamId = c) := by
  intro own
  have hs := Sane.new n
  have hagree : Agree c (ChunkParser.new n).toParserCore (ChunkParser.new n).toParserCore :=
    ⟨rfl, rfl⟩
  obtain ⟨howns, hemitted⟩ := hagree.emitted hs hs rfl hone hno
  obtain ⟨p, -, hall⟩ := parse_flatten rfl hone
  obtain ⟨q, -, hmine⟩ := parse_flatten rfl howns
  rw [hemitted] at hmine
  refine ⟨p, q, _, _, hall, hmine, rfl, rfl, fun hc => ?_⟩
  -- a message with the label `c` was completed by a block of `c`
  simp only [List.filter_map, List.filter_filter]
  congr 1
  refine List.filter_congr fun m hm => ?_
  rcases emitted_label hs hone m hm with hlabel | hzero
  · by_cases hmc : m.2.header.chunkStreamId = c <;> simp [hlabel, hmc]
  · simp [hzero, Ne.symm hc]

/-- Two chunk streams, interleaved: a message of three bytes in chunks of two, and one of one byte
in between. -/
theorem parse_multiplexed_two_streams :
    ∃ p q all mine,
      (ChunkParser.new 2).parse [0x03, 0, 0, 0, 0, 0, 3, 8, 0, 0, 0, 0, 1, 2,
        0x04, 0, 0, 0, 0, 0, 1, 9, 0, 0, 0, 0, 7, 0xC3, 3] = (p, 29, .ok all) ∧
      (ChunkParser.new 2).parse [0x03, 0, 0, 0, 0, 0, 3, 8, 0, 0, 0, 0, 1, 2, 0xC3, 3]
        = (q, 16, .ok mine) ∧
      (all.filter fun chunk => chunk.header.chunkStreamId = 3)
        = mine.filter fun chunk => chunk.header.chunkStreamId = 3 := by
  obtain ⟨p, q, all, mine, hall, hmine, -, -, hlabel⟩ := @parse_multiplexed 2
    [[0x03, 0, 0, 0, 0, 0, 3, 8, 0, 0, 0, 0, 1, 2],
      [0x04, 0, 0, 0, 0, 0, 1, 9, 0, 0, 0, 0, 7], [0xC3, 3]]
    ⟨⟨rfl, _, ⟨by decide, rfl⟩, rfl⟩, ⟨rfl, _, ⟨by decide, rfl⟩, rfl⟩,
      ⟨rfl, _, ⟨by decide, rfl⟩, rfl⟩, trivial⟩ (by decide) 3
  exact ⟨p, q, all, mine, hall, hmine, hlabel (by decide)⟩

end Rtmp
