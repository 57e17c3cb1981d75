/-
**The chunk parser as an incremental decoder.**

The loop of `ChunkParser::parse` decodes chunk after chunk from the front of the combined data
until one is not complete.  This module extracts one such attempt as a function on the bytes that
are left (`Rtmp.chunkStep`), shows that it is an incremental decoder, and proves that
`ChunkParser.parse` feeds it.  With that, the questions about `parse` become questions about one
attempt on one chunk, and about runs of whole chunks.

What one attempt can do is said once, in `Rtmp.chunkStep_take` and `Rtmp.chunkStep_wait`: it takes
a header and its payload, or it waits, either for the rest of a header, which leaves the parser as
it was, or for the rest of a payload, in which case the header has already been recorded.

Main definitions:

* `Rtmp.chunkStep`, `Rtmp.chunkDecoder` — one attempt, and the incremental decoder it makes;
* `Rtmp.WireHeader.head`, `Rtmp.WireHeader.opened`, `Rtmp.WireHeader.need`,
  `Rtmp.WireHeader.collect` — the header, the parser once the header is recorded, the payload
  bytes it calls for, and the outcome once they are there.

Main results:

* `Rtmp.chunkStep_bytes` — one attempt on a header that is there;
* `Rtmp.chunkStep_take`, `Rtmp.chunkStep_wait` — the inversion of both outcomes;
* `Rtmp.ChunkParser.parse_eq` — **`parse` is a read given to the decoder**: it ends, it does not
  leave its span, and it does not return an error.
-/

import RtmpTranscoder.ChunkWire
import RtmpTranscoder.Incremental

set_option relaxedAutoImplicit false
set_option autoImplicit false

namespace Rtmp

open Incremental

/-! ### One attempt -/

/-- The body of the loop of `ChunkParser::parse`, on the bytes that are left. -/
def chunkStep (core : ParserCore) (rest : List UInt8) : Outcome ParserCore Chunk :=
  match parseHeader core.streams rest with
  | .error _ => .wait core
  | .ok (header, headerSize, streams) =>
      let state := (streams header.chunkStreamId).prepare
      let opened : ParserCore :=
        { chunkSize := core.chunkSize,
          streams := Function.update streams header.chunkStreamId state }
      let n := bytesToRead opened.chunkSize header state
      if rest.length < headerSize + n.toNat then .wait opened
      else
        let r := collect opened header state ((rest.drop headerSize).take n.toNat) n
        .take (headerSize + n.toNat) r.1 r.2

namespace WireHeader

variable (w : WireHeader) (core : ParserCore)

/-- The header the parser makes of `w`. -/
def head : ChunkHeader := w.header (core.streams w.csid).prevHeader

/-- The stream that receives the payload, once the header is recorded. -/
def stream : StreamState := (w.update core.streams (w.head core).chunkStreamId).prepare

/-- The parser once the header is recorded. -/
def opened : ParserCore where
  chunkSize := core.chunkSize
  streams := Function.update (w.update core.streams) (w.head core).chunkStreamId (w.stream core)

/-- The number of payload bytes the chunk has. -/
def need : UInt32 := bytesToRead core.chunkSize (w.head core) (w.stream core)

/-- The parser and the messages once the payload is there. -/
def collect (payload : List UInt8) : ParserCore × List Chunk :=
  Rtmp.collect (w.opened core) (w.head core) (w.stream core) payload (w.need core)

end WireHeader

/-- **One attempt on a header that is there.** -/
theorem chunkStep_bytes {w : WireHeader} {core : ParserCore} (hfit : w.Fits core.streams)
    (rest : List UInt8) :
    chunkStep core (w.bytes ++ rest) =
      if rest.length < (w.need core).toNat then .wait (w.opened core)
      else .take (w.bytes.length + (w.need core).toNat)
        (w.collect core (rest.take (w.need core).toNat)).1
        (w.collect core (rest.take (w.need core).toNat)).2 := by
  simp only [chunkStep, parseHeader_bytes hfit, List.length_append, Nat.add_lt_add_iff_left,
    List.drop_left]
  rfl

theorem chunkStep_payload {w : WireHeader} {core : ParserCore} (hfit : w.Fits core.streams)
    {payload : List UInt8} (hp : payload.length = (w.need core).toNat) (rest : List UInt8) :
    chunkStep core (w.bytes ++ (payload ++ rest)) =
      .take (w.bytes.length + payload.length) (w.collect core payload).1
        (w.collect core payload).2 := by
  have hlen : ¬ (payload ++ rest).length < (w.need core).toNat := by
    rw [List.length_append]
    omega
  rw [chunkStep_bytes hfit, if_neg hlen, ← hp, List.take_left]

/-- **What an attempt that takes a chunk can do.** -/
theorem chunkStep_take {core core' : ParserCore} {xs : List UInt8} {n : ℕ} {out : List Chunk}
    (h : chunkStep core xs = .take n core' out) :
    ∃ w payload rest, WireHeader.Fits w core.streams ∧ xs = w.bytes ++ (payload ++ rest) ∧
      payload.length = (w.need core).toNat ∧ n = w.bytes.length + payload.length ∧
      (core', out) = w.collect core payload := by
  rcases parseHeader_cases core.streams xs with ⟨w, rest, hfit, rfl⟩ | ⟨text, -, -, herr⟩
  · rw [chunkStep_bytes hfit] at h
    split at h
    · cases h
    · rename_i hlen
      cases h
      have htake : (rest.take (w.need core).toNat).length = (w.need core).toNat :=
        List.length_take_of_le (not_lt.1 hlen)
      refine ⟨w, rest.take (w.need core).toNat, rest.drop (w.need core).toNat, hfit, ?_, htake, ?_,
        rfl⟩
      · rw [List.take_append_drop]
      · rw [htake]
  · simp only [chunkStep, herr] at h
    cases h

/-- **What an attempt that waits can do.** -/
theorem chunkStep_wait {core core' : ParserCore} {xs : List UInt8}
    (h : chunkStep core xs = .wait core') :
    (xs.length < 18 ∧ core' = core) ∨
      ∃ w payload, WireHeader.Fits w core.streams ∧ xs = w.bytes ++ payload ∧
        payload.length < (w.need core).toNat ∧ core' = w.opened core := by
  rcases parseHeader_cases core.streams xs with ⟨w, rest, hfit, rfl⟩ | ⟨text, -, hlen, herr⟩
  · rw [chunkStep_bytes hfit] at h
    split at h
    · rename_i hlen
      cases h
      exact .inr ⟨w, rest, hfit, rfl, hlen, rfl⟩
    · cases h
  · simp only [chunkStep, herr, Outcome.wait.injEq] at h
    exact .inl ⟨hlen, h.symm⟩

/-- The chunk parser as an incremental decoder. -/
def chunkDecoder : Decoder ParserCore UInt8 Chunk where
  step := chunkStep
  take_pos h := by
    obtain ⟨w, payload, rest, -, -, -, rfl, -⟩ := chunkStep_take h
    have := w.length_bytes_pos
    omega
  take_le h := by
    obtain ⟨w, payload, rest, -, rfl, -, rfl, -⟩ := chunkStep_take h
    simp only [List.length_append]
    omega
  take_local h ys := by
    obtain ⟨w, payload, rest, hfit, rfl, hp, rfl, hc⟩ := chunkStep_take h
    have htake : (w.bytes ++ (payload ++ rest)).take (w.bytes.length + payload.length)
        = w.bytes ++ payload := by
      rw [← List.append_assoc, ← List.length_append, List.take_left]
    rw [htake, List.append_assoc, chunkStep_payload hfit hp, ← hc]

@[simp] theorem chunkDecoder_step : chunkDecoder.step = chunkStep := rfl

theorem chunkStep_unit {w : WireHeader} {core : ParserCore} (hfit : w.Fits core.streams)
    {payload : List UInt8} (hp : payload.length = (w.need core).toNat) :
    chunkDecoder.step core (w.bytes ++ payload) =
      .take (w.bytes ++ payload).length (w.collect core payload).1 (w.collect core payload).2 := by
  have := chunkStep_payload hfit hp []
  rwa [List.append_nil, ← List.length_append] at this

theorem chunkStep_nil (core : ParserCore) : chunkDecoder.step core [] = .wait core := rfl

/-! ### `parse` feeds the decoder -/

/-- One iteration of the loop is one attempt: no error ever leaves the loop, since the only errors
of `parse_header` are that something is incomplete. -/
theorem parseIteration_eq (combined : List UInt8) (l : ParseLoop)
    (hle : l.offset ≤ combined.length) :
    parseIteration combined l =
      match chunkStep l.parser.toParserCore (combined.drop l.offset) with
      | .wait core => .stop { l with parser := { core with buffer := l.parser.buffer } }
      | .take n core out =>
          .next
            { parser := { core with buffer := l.parser.buffer }, offset := l.offset + n,
              lastGoodOffset := l.offset + n, chunks := l.chunks ++ out } := by
  rcases parseHeader_cases l.parser.streams (combined.drop l.offset) with
    ⟨w, rest, hfit, hdrop⟩ | ⟨text, hinc, -, herr⟩
  · have hok := parseHeader_bytes hfit rest
    rw [← hdrop] at hok
    simp only [parseIteration, chunkStep, hok, List.length_drop, List.drop_drop]
    by_cases hlen : combined.length < l.offset + w.bytes.length + (w.need l.parser.toParserCore).toNat
    · have hlen' : combined.length - l.offset
          < w.bytes.length + (w.need l.parser.toParserCore).toNat := by omega
      simp only [WireHeader.need, WireHeader.stream, WireHeader.head] at hlen hlen'
      rw [if_pos hlen, if_pos hlen']
    · have hlen' : ¬ combined.length - l.offset
          < w.bytes.length + (w.need l.parser.toParserCore).toNat := by omega
      simp only [WireHeader.need, WireHeader.stream, WireHeader.head] at hlen hlen'
      rw [if_neg hlen, if_neg hlen', bytesAt_of_le (not_lt.1 hlen)]
      simp only [Nat.add_assoc]
  · simp only [parseIteration, chunkStep, herr, hinc]
    simp

/-- The loop takes chunks until one is not complete; at most one iteration for every byte that is
left is enough. -/
theorem parseLoop_eq (combined : List UInt8) :
    ∀ (fuel : ℕ) (p : ChunkParser) (offset : ℕ) (chunks : List Chunk), offset ≤ combined.length →
      combined.length - offset ≤ fuel →
      let r := chunkDecoder.drain p.toParserCore (combined.drop offset)
      parseLoop combined fuel ⟨p, offset, offset, chunks⟩ = .ok
        { parser := { chunkDecoder.settle r.stop r.rest with buffer := p.buffer },
          offset := combined.length - r.rest.length,
          lastGoodOffset := combined.length - r.rest.length, chunks := chunks ++ r.out } := by
  -- the last iteration finds nothing left
  have hend : ∀ (fuel : ℕ) (p : ChunkParser) (offset : ℕ) (chunks : List Chunk),
      offset = combined.length →
      let r := chunkDecoder.drain p.toParserCore (combined.drop offset)
      parseLoop combined fuel ⟨p, offset, offset, chunks⟩ = .ok
        { parser := { chunkDecoder.settle r.stop r.rest with buffer := p.buffer },
          offset := combined.length - r.rest.length,
          lastGoodOffset := combined.length - r.rest.length, chunks := chunks ++ r.out } := by
    intro fuel p offset chunks hoff
    have hdrop : combined.drop offset = [] := by simp [hoff]
    have hwait := chunkStep_nil p.toParserCore
    rw [hdrop, chunkDecoder.drain_wait hwait]
    simp only [chunkDecoder.settle_eq hwait, List.length_nil, Nat.sub_zero, List.append_nil]
    cases fuel <;> simp [parseLoop, hoff]
  intro fuel
  induction fuel with
  | zero =>
      intro p offset chunks hle hfuel
      exact hend 0 p offset chunks (by omega)
  | succ fuel ih =>
      intro p offset chunks hle hfuel
      rcases Nat.eq_or_lt_of_le hle with hoff | hlt
      · exact hend _ p offset chunks hoff
      · have hiter := parseIteration_eq combined ⟨p, offset, offset, chunks⟩ hle
        cases hstep : chunkDecoder.step p.toParserCore (combined.drop offset) with
        | wait core =>
            rw [chunkDecoder.drain_wait hstep]
            rw [chunkDecoder_step] at hstep
            simp only [hstep] at hiter
            simp only [parseLoop, hlt, if_true, hiter, List.length_drop, List.append_nil,
              Nat.sub_sub_self hle]
            rw [chunkDecoder.settle_eq hstep]
        | take n core out =>
            have hpos := chunkDecoder.take_pos hstep
            have hn := chunkDecoder.take_le hstep
            rw [List.length_drop] at hn
            rw [chunkDecoder.drain_take hstep]
            rw [chunkDecoder_step] at hstep
            simp only [hstep] at hiter
            simp only [parseLoop, hlt, if_true, hiter]
            have := ih { core with buffer := p.buffer } (offset + n) (chunks ++ out) (by omega)
              (by omega)
            simp only [List.drop_drop, List.append_assoc] at this ⊢
            exact this

/-- **`parse` is a read given to the decoder.**  In particular it ends, it stays within its span,
and it does not return an error. -/
theorem ChunkParser.parse_eq (p : ChunkParser) (data : List UInt8) :
    let r := chunkDecoder.feed (p.toParserCore, p.buffer) data
    p.parse data = ({ r.1.1 with buffer := r.1.2 },
      (p.buffer ++ data).length - r.1.2.length - p.buffer.length, .ok r.2) := by
  have hloop := parseLoop_eq (p.buffer ++ data) (p.buffer ++ data).length p 0 [] (by omega)
    (by omega)
  obtain ⟨w, hw, -, -⟩ := chunkDecoder.drain_spec p.toParserCore (p.buffer ++ data)
  simp only [List.drop_zero, List.nil_append] at hloop
  simp only [ChunkParser.parse, hloop, Decoder.feed]
  generalize chunkDecoder.drain p.toParserCore (p.buffer ++ data) = r at hw ⊢
  have hlen : (p.buffer ++ data).length - r.rest.length = w.length := by
    rw [hw, List.length_append]
    omega
  have hbuffer : (if w.length < (p.buffer ++ data).length then (p.buffer ++ data).drop w.length
      else []) = r.rest := by
    split
    · rw [hw, List.drop_left]
    · rename_i hge
      rw [hw, List.length_append] at hge
      exact (List.eq_nil_of_length_eq_zero (by omega)).symm
  have hconsumed : (if p.buffer.length ≤ w.length then w.length - p.buffer.length else 0)
      = w.length - p.buffer.length := by
    split <;> omega
  rw [hlen, hbuffer, hconsumed]

theorem feed_chunks {core core' : ParserCore} {bytes : List UInt8} {out : List Chunk}
    (h : chunkDecoder.Run core bytes out core') :
    chunkDecoder.feed (core, []) bytes = ((core', []), out) :=
  h.feed_whole (chunkStep_nil core')

theorem feed_nil (core : ParserCore) : chunkDecoder.feed (core, []) [] = ((core, []), []) :=
  feed_chunks (.nil core)

/-- A parser with nothing buffered takes a run of whole chunks and waits. -/
theorem ChunkParser.parse_run {p : ChunkParser} (hp : p.buffer = []) {core : ParserCore}
    {bytes : List UInt8} {out : List Chunk}
    (h : chunkDecoder.Run p.toParserCore bytes out core) :
    p.parse bytes = (⟨core, []⟩, bytes.length, .ok out) := by
  have hparse := p.parse_eq bytes
  rw [hp, feed_chunks h] at hparse
  simpa using hparse

end Rtmp
