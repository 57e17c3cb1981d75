/-
**The chunk size of a session.**

A `SetChunkSize` is checked by the parser: a value that is 0 or larger than 16 MiB leaves the chunk
size as it is.  The session applies it once more, after the whole read has been parsed, and does not
check it.  The second application is harmless as long as the last value announced within a read is
in range, since the parser has then ended with the same value; otherwise it puts a chunk size in
force that the parser had rejected.

So within a read the chunk size is always the last one announced that is in range, and it stays so
behind the read exactly if the last value announced in that read is in range.

Main definitions:

* `Rtmp.ChunkSizeSane`, `Rtmp.Session.KeepsChunkSize` — the chunk size is that one, at every chunk
  of every read and behind every read;
* `Rtmp.Session.EndsInRange` — the last value announced in a read is in range.

Main results:

* `Rtmp.Session.processInput_of_endsInRange` — the second application changes nothing;
* `Rtmp.Session.processAll_of_kept` — reads in which it changes nothing are left to the parser;
* `Rtmp.Session.keepsChunkSize_iff` — **the chunk size stays sane exactly if every read ends in
  range**;
* `Rtmp.Session.chunkSize_zero` — a chunk size of 0 that is put in force.
-/

import RtmpTranscoder.Session

set_option relaxedAutoImplicit false
set_option autoImplicit false

namespace Rtmp

open Incremental

/-! ### The session applies it once more -/

namespace Session

variable {s : Session}

/-- The last value announced in the read `data` is in range, if there is one. -/
def EndsInRange (s : Session) (data : List UInt8) : Prop :=
  ∀ chunks, (s.parser.parse data).2.2 = .ok chunks →
    ∀ size, ((chunks.map Chunk.message).filterMap announced).getLast? = some size → InRange size

/-- If the last value announced in a read is in force already, the session is left with what its parser
has made of it. -/
theorem processInput_of_last (hdone : s.handshake.isDone = true) {data : List UInt8} :
    let r := chunkDecoder.feed (s.parser.toParserCore, s.parser.buffer) data
    let size := lastInRange s.parser.chunkSize (r.2.map Chunk.message)
    ((r.2.map Chunk.message).filterMap announced).getLastD size = size →
    s.processInput data =
      ({ s with parser := { r.1.1 with buffer := r.1.2 } }, r.2.map Chunk.message,
        .ok ((s.parser.buffer ++ data).length - r.1.2.length - s.parser.buffer.length)) := by
  intro r size hlast
  have hsize : (chunkDecoder.feed (s.parser.toParserCore, s.parser.buffer) data).1.1.chunkSize = size :=
    feed_chunkSize (s.parser.toParserCore, s.parser.buffer) data
  rw [processInput_eq hdone, foldl_handle]
  simp only [ChunkParser.setChunkSize]
  rw [hsize, hlast, ← hsize]

/-- If a read ends in range, the session is left with what its parser has made of it. -/
theorem processInput_of_endsInRange (hdone : s.handshake.isDone = true) {data : List UInt8}
    (h : s.EndsInRange data) :
    let r := chunkDecoder.feed (s.parser.toParserCore, s.parser.buffer) data
    s.processInput data =
      ({ s with parser := { r.1.1 with buffer := r.1.2 } }, r.2.map Chunk.message,
        .ok ((s.parser.buffer ++ data).length - r.1.2.length - s.parser.buffer.length)) :=
  processInput_of_last hdone (getLastD_eq_lastInRange (h _ (by rw [s.parser.parse_eq])))

/-- Otherwise the session is left with the value that is not in range. -/
theorem chunkSize_processInput (hdone : s.handshake.isDone = true) (data : List UInt8) :
    (s.processInput data).1.parser.chunkSize =
      ((s.processInput data).2.1.filterMap announced).getLastD
        (lastInRange s.parser.chunkSize (s.processInput data).2.1) := by
  rw [processInput_eq hdone, foldl_handle]
  simp only [ChunkParser.setChunkSize, feed_chunkSize]

/-- Reads are left to the parser as long as what is announced in them is in force already, behind every
read: `I` is what holds of the chunk size then, and `P` what the messages announce. -/
theorem processAll_of_kept {I : UInt32 → Prop} {P : Message → Prop}
    (hkeep : ∀ n messages, I n → (∀ msg ∈ messages, P msg) →
      I (lastInRange n messages) ∧
        (messages.filterMap announced).getLastD (lastInRange n messages) = lastInRange n messages)
    (hdone : s.handshake.isDone = true) (hI : I s.parser.chunkSize) (reads : List (List UInt8)) :
    let r := chunkDecoder.feedAll (s.parser.toParserCore, s.parser.buffer) reads
    (∀ msg ∈ r.2.map Chunk.message, P msg) →
    s.processAll reads =
      ({ s with parser := { r.1.1 with buffer := r.1.2 } }, r.2.map Chunk.message) := by
  induction reads generalizing s with
  | nil => intro r _; rfl
  | cons data reads ih =>
      intro r h
      simp only [r, Decoder.feedAll_cons, List.map_append, List.mem_append] at h
      have hread := hkeep s.parser.chunkSize _ hI fun msg hmsg => h msg (.inl hmsg)
      have hI' : I (chunkDecoder.feed (s.parser.toParserCore, s.parser.buffer) data).1.1.chunkSize := by
        rw [feed_chunkSize]
        exact hread.1
      have hrest := @ih { s with parser :=
        { (chunkDecoder.feed (s.parser.toParserCore, s.parser.buffer) data).1.1 with
          buffer := (chunkDecoder.feed (s.parser.toParserCore, s.parser.buffer) data).1.2 } } hdone
        hI' fun msg hmsg => h msg (.inr hmsg)
      rw [processAll_cons, processInput_of_last hdone hread.2, hrest]
      simp only [r, Decoder.feedAll_cons, List.map_append]

/-- Reads in which only values in range are announced leave the session with what its parser has
made of them. -/
theorem processAll_of_inRange (hdone : s.handshake.isDone = true) (reads : List (List UInt8)) :
    let r := chunkDecoder.feedAll (s.parser.toParserCore, s.parser.buffer) reads
    (∀ msg ∈ r.2.map Chunk.message, ∀ size, announced msg = some size → InRange size) →
    s.processAll reads =
      ({ s with parser := { r.1.1 with buffer := r.1.2 } }, r.2.map Chunk.message) := by
  refine processAll_of_kept (I := fun _ => True) (fun n messages _ h => ⟨trivial, ?_⟩) hdone trivial
    reads
  refine getLastD_eq_lastInRange fun size hsize => ?_
  obtain ⟨msg, hmsg, hann⟩ := List.mem_filterMap.1 (List.mem_of_getLast? hsize)
  exact h msg hmsg size hann

/-- So do reads in which nothing is announced but the chunk size that is in force, in range or not. -/
theorem processAll_of_same (hdone : s.handshake.isDone = true) (reads : List (List UInt8)) :
    let r := chunkDecoder.feedAll (s.parser.toParserCore, s.parser.buffer) reads
    (∀ msg ∈ r.2.map Chunk.message, ∀ size, announced msg = some size →
      size = s.parser.chunkSize) →
    s.processAll reads =
      ({ s with parser := { r.1.1 with buffer := r.1.2 } }, r.2.map Chunk.message) := by
  refine processAll_of_kept (I := fun n => n = s.parser.chunkSize) (fun n messages hn h => ?_) hdone
    rfl reads
  subst hn
  have hlast := lastInRange_of_same fun msg hmsg size hann _ => h msg hmsg size hann
  refine ⟨hlast, ?_⟩
  rw [hlast]
  exact getLastD_of_same h

end Session

/-! ### The chunk size of a run -/

/-- The chunk size `n` is the one that is to be in force when `received` has been received. -/
structure ChunkSizeSane (n : UInt32) (received : List Message) : Prop where
  inRange : InRange n
  eq_last : n = lastInRange 128 received

theorem ChunkSizeSane.of_eq {n : UInt32} {received : List Message}
    (h : n = lastInRange 128 received) : ChunkSizeSane n received :=
  ⟨h ▸ inRange_lastInRange (by decide) received, h⟩

namespace Session

variable {s : Session}

/-- The chunk size is sane at every chunk of every read, and behind every read. -/
def KeepsChunkSize (s : Session) (reads : List (List UInt8)) : Prop :=
  ∀ before data after, reads = before ++ data :: after →
    let now := s.processAll before
    let next := now.1.processInput data
    (∀ bytes rest out core, now.1.parser.buffer ++ data = bytes ++ rest →
      chunkDecoder.Run now.1.parser.toParserCore bytes out core →
      ChunkSizeSane core.chunkSize (now.2 ++ out.map Chunk.message)) ∧
    ChunkSizeSane next.1.parser.chunkSize (now.2 ++ next.2.1)

theorem processInput_sane (hdone : s.handshake.isDone = true) {data : List UInt8}
    (h : s.EndsInRange data) {received : List Message}
    (hs : s.parser.chunkSize = lastInRange 128 received) :
    (s.processInput data).1.parser.chunkSize
      = lastInRange 128 (received ++ (s.processInput data).2.1) := by
  rw [processInput_of_endsInRange hdone h]
  simp only [feed_chunkSize, lastInRange_append, hs]

theorem processAll_sane {s₀ : Session} (hdone : s₀.handshake.isDone = true)
    (hs : s₀.parser.chunkSize = 128) (reads : List (List UInt8))
    (h : ∀ before data after, reads = before ++ data :: after →
      (s₀.processAll before).1.EndsInRange data) :
    (s₀.processAll reads).1.parser.chunkSize = lastInRange 128 (s₀.processAll reads).2 := by
  induction reads using List.reverseRecOn with
  | nil => exact hs
  | append_singleton reads data ih =>
      have hbefore := ih fun before data' after hr =>
        h before data' (after ++ [data]) (by rw [hr]; simp)
      have hlast := h reads data [] rfl
      have hdone' : (s₀.processAll reads).1.handshake.isDone = true := by
        rw [handshake_processAll hdone]
        exact hdone
      rw [processAll_append]
      simp only [processAll_cons, processAll_nil, List.append_nil]
      exact processInput_sane hdone' hlast hbefore

/-- **The chunk size stays sane exactly if every read ends in range**: the last value that is
announced in it is in range, if there is one. -/
theorem keepsChunkSize_iff (policy : GrowthPolicy) {handshake : Handshake}
    (hdone : handshake.isDone = true) (reads : List (List UInt8)) :
    (established policy handshake).KeepsChunkSize reads ↔
      ∀ before data after, reads = before ++ data :: after →
        ((established policy handshake).processAll before).1.EndsInRange data := by
  have hdone' : ∀ before,
      ((established policy handshake).processAll before).1.handshake.isDone = true := by
    intro before
    rw [handshake_processAll hdone]
    exact hdone
  constructor
  · -- the value that the session applies is in range, and it is the last one announced
    intro h before data after hr chunks hchunks size hsize
    have hsane := (h before data after hr).2.inRange
    have hvalue := chunkSize_processInput (hdone' before) data
    rw [ChunkParser.parse_eq, Except.ok.injEq] at hchunks
    have hmessages := congrArg (fun r => r.2.1) (processInput_eq (hdone' before) data)
    simp only [hchunks] at hmessages
    rw [hvalue, hmessages, List.getLastD_eq_getLast?, hsize] at hsane
    exact hsane
  · intro h before data after hr
    have hnow := processAll_sane hdone rfl before fun before' data' after' hr' =>
      h before' data' (after' ++ data :: after) (by rw [hr, hr']; simp)
    refine ⟨fun bytes rest out core _ hrun => .of_eq ?_, .of_eq ?_⟩
    · rw [Run.chunkSize hrun, hnow, lastInRange_append]
    · exact processInput_sane (hdone' before) (h before data after hr) hnow

/-- A `SetChunkSize` of 0 and one of 256, in one read. -/
theorem keepsChunkSize_zero_then_256 :
    (established .exact { state := .done }).KeepsChunkSize
      [[2, 0, 0, 0, 0, 0, 4, 1, 0, 0, 0, 0, 0, 0, 0, 0,
        2, 0, 0, 0, 0, 0, 4, 1, 0, 0, 0, 0, 0, 0, 1, 0]] := by
  refine (keepsChunkSize_iff .exact (by decide) _).2 ?_
  intro before data after hr chunks hchunks size hsize
  cases before with
  | nil =>
      obtain ⟨rfl, -⟩ := List.cons.inj hr
      have hparse := congrArg (Except.map fun chunks : List Chunk =>
        (chunks.map Chunk.message).filterMap announced) hchunks
      have hvalues : (chunks.map Chunk.message).filterMap announced = [0, 256] :=
        Except.ok.inj (hparse.symm.trans (by decide))
      rw [hvalues] at hsize
      rw [← Option.some.inj hsize]
      decide
  | cons first before => simp at hr

/-- A `SetChunkSize` of 0 at the end of a read is put in force. -/
theorem chunkSize_zero :
    ¬ (established .exact { state := .done }).KeepsChunkSize
      [[2, 0, 0, 0, 0, 0, 4, 1, 0, 0, 0, 0, 0, 0, 0, 0]] := by
  intro h
  have hsane := (h [] _ [] rfl).2.inRange
  revert hsane
  decide

end Session

end Rtmp
