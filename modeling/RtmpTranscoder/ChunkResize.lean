/-
**Changing the chunk size between two reads.**

The session sets the chunk size of its parser behind a read, whatever that read ended with: between
two messages, in the middle of a message, or in the middle of a header.  A message that was written
as one chunk does not notice, as long as both chunk sizes have room for it: a parser between messages
takes its chunk under the one as under the other, and waits for the rest of it alike.

Main definitions:

* `Rtmp.Idle` — the parser is between messages on every chunk stream;
* `Rtmp.ParserCore.resize` — another chunk size;
* `Rtmp.Alone` — a chunk that is a whole message, for every parser with room for it.

Main results:

* `Rtmp.WholeChunks.cut` — where a decoder stops when whole chunks are cut off;
* `Rtmp.WholeChunks.nil_of_idle` — behind a message there is nothing that hands over nothing;
* `Rtmp.WholeChunks.reached` — how far a decoder has got, told by what it has handed over;
* `Rtmp.wholeChunks_alone` — such chunks are taken one behind the other;
* `Rtmp.feedAll_resize` — **the messages arrive if the chunk size is changed behind a read**.
-/

import RtmpTranscoder.SessionDelivery

set_option relaxedAutoImplicit false
set_option autoImplicit false

namespace Rtmp

open Incremental

/-- The parser is between messages on every chunk stream. -/
def Idle (core : ParserCore) : Prop := ∀ c, (core.streams c).bytesReceived = 0

/-- The parser with another chunk size. -/
def ParserCore.resize (core : ParserCore) (n : UInt32) : ParserCore := { core with chunkSize := n }

/-! ### Where a decoder stops -/

section Cut

variable {core core' : ParserCore} {pieces : List Piece} {out : List Chunk}

/-- **Where a decoder stops**: behind some of the chunks, in front of the others, and with less than
the next one at hand. -/
theorem WholeChunks.cut (h : WholeChunks core pieces out core') {xs ys : List UInt8}
    (hxs : pieces.flatMap Piece.bytes = xs ++ ys) :
    ∃ done left out₁ stop rest, pieces = done ++ left ∧
      chunkDecoder.drain core xs = ⟨stop, rest, out₁⟩ ∧ WholeChunks core done out₁ stop ∧
      left.flatMap Piece.bytes = rest ++ ys ∧
      ∀ piece more, left = piece :: more → rest.length < piece.bytes.length := by
  induction h generalizing xs ys with
  | nil core =>
      obtain ⟨rfl, rfl⟩ := List.append_eq_nil_iff.1 hxs.symm
      exact ⟨[], [], [], core, [], rfl, chunkDecoder.drain_wait (chunkStep_nil core), .nil core, rfl,
        by simp⟩
  | @cons core core' piece pieces out hfit hp hrest ih =>
      rw [List.flatMap_cons] at hxs
      have hpre : xs <+: piece.bytes ++ pieces.flatMap Piece.bytes := ⟨ys, hxs.symm⟩
      rcases Nat.lt_or_ge xs.length piece.bytes.length with hlt | hge
      · -- the cut is in this chunk
        obtain ⟨tail, htail⟩ :=
          List.prefix_of_prefix_length_le hpre (List.prefix_append ..) (Nat.le_of_lt hlt)
        obtain ⟨s, hwait⟩ := exists_wait_of_cut hfit hp htail.symm hlt
        refine ⟨[], piece :: pieces, [], core, xs, rfl, chunkDecoder.drain_wait hwait, .nil core,
          by rw [List.flatMap_cons, hxs], ?_⟩
        intro q more hq
        rw [← (List.cons.inj hq).1]
        exact hlt
      · -- it is behind this chunk
        obtain ⟨xs', rfl⟩ := List.prefix_of_prefix_length_le (List.prefix_append ..) hpre hge
        rw [List.append_assoc, List.append_cancel_left_eq] at hxs
        obtain ⟨done, left, out₁, stop, rest, rfl, hdrain, hdone, hleft, hshort⟩ := ih hxs
        have hunit := chunkStep_unit hfit hp
        rw [← Piece.bytes] at hunit
        have htake := chunkDecoder.take_append hunit xs'
        refine ⟨piece :: done, left, _, stop, rest, rfl, ?_, .cons hfit hp hdone, hleft, hshort⟩
        rw [chunkDecoder.drain_take htake, List.drop_left, hdrain]

/-- **Behind a message there is nothing that hands over nothing**: chunks that do, and leave the parser
between messages, are no chunks. -/
theorem WholeChunks.nil_of_idle (h : WholeChunks core pieces [] core') (hs : Sane core)
    (hsize : 1 ≤ core.chunkSize.toNat) (hidle : Idle core') : pieces = [] := by
  have hconserve := fun c => h.conserves hs c
  have hsane := hs.run h.run
  generalize hout : ([] : List Chunk) = out at h
  cases h with
  | nil => rfl
  | @cons _ _ piece pieces out hfit hp hrest =>
      obtain ⟨hnone, -⟩ := List.append_eq_nil_iff.1 hout.symm
      -- nothing has been collected on the stream of the first of them
      have hempty : (core'.streams piece.header.csid).partialMessage = [] := by
        refine List.eq_nil_of_length_eq_zero ?_
        rw [hsane.received, hidle]
        rfl
      have hpayload : piece.payload = [] := by
        have := hconserve piece.header.csid
        rw [hempty] at this
        simp only [messagesOn, payloadOn, List.filter_nil, List.flatMap_nil, List.append_nil,
          List.filter_cons, decide_true, if_true, List.flatMap_cons] at this
        exact (List.append_eq_nil_iff.1 (List.append_eq_nil_iff.1 this.symm).2).1
      -- so the chunk calls for nothing, and its message is complete
      have hneed : (piece.header.need core).toNat = 0 := by
        rw [← hp, hpayload]
        rfl
      have hmissing : (piece.header.head core).messageLength
          - (piece.header.stream core).bytesReceived = 0 := by
        rw [WireHeader.need, bytesToRead, UInt32.toNat_min] at hneed
        rw [← UInt32.toNat_inj]
        change _ = 0
        omega
      have hdone : (piece.header.head core).messageLength
          ≤ (piece.header.stream core).bytesReceived + piece.header.need core := by
        rw [UInt32.le_iff_toNat_le, hs.toNat_received, ← sub_eq_zero.1 hmissing]
        omega
      rw [piece.header.collect_complete core hdone] at hnone
      cases hnone

/-- In front of chunks, with less than the first one at hand, the decoder waits. -/
theorem WholeChunks.exists_wait (h : WholeChunks core pieces out core') {xs ys : List UInt8}
    (hxs : pieces.flatMap Piece.bytes = xs ++ ys)
    (hshort : ∀ piece more, pieces = piece :: more → xs.length < piece.bytes.length) :
    ∃ s, chunkDecoder.step core xs = .wait s := by
  cases h with
  | nil =>
      rw [(List.append_eq_nil_iff.1 hxs.symm).1]
      exact ⟨_, chunkStep_nil _⟩
  | @cons _ _ piece pieces _ hfit hp _ =>
      have hlt := hshort piece pieces rfl
      rw [List.flatMap_cons] at hxs
      obtain ⟨tail, htail⟩ := List.prefix_of_prefix_length_le ⟨_, hxs.symm⟩
        (List.prefix_append ..) (Nat.le_of_lt hlt)
      exact exists_wait_of_cut hfit hp htail.symm hlt

/-- **Chunks that have handed over as much as the first of them have gone as far**, if those leave the
parser between messages. -/
theorem WholeChunks.reached {done left rest : List Piece} {stop : ParserCore} {taken : List Chunk}
    (h : WholeChunks core pieces out core') (hs : Sane core) (hsize : InRange core.chunkSize)
    (hidle : Idle core') (hdone : WholeChunks core done taken stop)
    (hsplit : pieces ++ rest = done ++ left) (hfar : out.length ≤ taken.length) :
    ∃ more, done = pieces ++ more ∧ rest = more ++ left := by
  rcases List.append_eq_append_iff.1 hsplit with ⟨more, hmore, hmore'⟩ | ⟨more, rfl, rfl⟩
  · exact ⟨more, hmore, hmore'⟩
  · obtain ⟨out₁, core₁, out₂, hfirst, hrest, rfl⟩ := h.of_append
    obtain ⟨rfl, rfl⟩ := hfirst.unique hdone
    have hnone : out₂ = [] := by
      rw [List.length_append] at hfar
      exact List.eq_nil_of_length_eq_zero (Nat.le_zero.1 (Nat.le_of_add_le_add_left hfar))
    subst hnone
    have hone : 1 ≤ core₁.chunkSize.toNat := by
      rw [Run.chunkSize hfirst.run]
      exact (inRange_lastInRange hsize _).1
    have hmore := hrest.nil_of_idle (hs.run hfirst.run) hone hidle
    subst hmore
    exact ⟨[], by simp, by simp⟩

end Cut

/-! ### Chunks that are whole messages -/

/-- The chunk is the message, for every parser that is between messages and has room for it. -/
structure Alone (piece : Piece) (chunk : Chunk) : Prop where
  plain : piece.header.Plain
  taken : ∀ {core : ParserCore}, Sane core → Idle core →
    chunk.payload.length ≤ core.chunkSize.toNat →
    ∃ core', WholeChunks core [piece] [chunk] core' ∧ HandsOver core core' core.chunkSize chunk

theorem encodeChunk_alone {header : ChunkHeader} {payload : List UInt8} {n : UInt32}
    (hcsid : 2 ≤ header.chunkStreamId.toNat ∧ header.chunkStreamId.toNat ≤ 65599)
    (hlen : header.messageLength.toNat = payload.length)
    (hpayload : 1 ≤ payload.length ∧ payload.length ≤ 0xFFFFFF) (hn : payload.length ≤ n.toNat) :
    ∃ piece, encodeChunk header payload n = .ok piece.bytes ∧
      Alone piece ⟨headerOf header, payload⟩ := by
  obtain ⟨w, hplain, hbytes, hfirst⟩ := exists_firstChunk hcsid hlen hpayload.2
  refine ⟨⟨w, payload⟩, ?_, hplain, fun {core} hs hidle hroom => ?_⟩
  · rw [encodeChunk_one hpayload.1 hn, Piece.bytes, hbytes]
  · obtain ⟨hfit, hp, hlast, -⟩ := hfirst hs rfl (hidle _)
    have hall : payload.take core.chunkSize.toNat = payload := List.take_of_length_le hroom
    rw [hall] at hp hlast
    obtain ⟨hout, hover⟩ := hlast hroom
    refine ⟨_, ?_, hover⟩
    rw [← hout]
    exact @WholeChunks.single _ ⟨w, payload⟩ hfit hp

theorem HandsOver.all_idle {core core' : ParserCore} {n : UInt32} {chunk : Chunk}
    (h : HandsOver core core' n chunk) (hidle : Idle core) : Idle core' := by
  intro c
  by_cases hc : c = chunk.header.chunkStreamId
  · rw [hc]
    exact h.idle
  · rw [h.others c hc]
    exact hidle c

/-- **Such chunks are taken one behind the other**, if there is room for all of them and none of them
changes the chunk size. -/
theorem wholeChunks_alone {pieces : List Piece} {chunks : List Chunk}
    (h : List.Forall₂ Alone pieces chunks) {core : ParserCore} (hs : Sane core) (hidle : Idle core)
    (hroom : ∀ chunk ∈ chunks, chunk.payload.length ≤ core.chunkSize.toNat)
    (hkeep : ∀ chunk ∈ chunks, ∀ size, announced chunk.message = some size → ¬ InRange size) :
    ∃ core', WholeChunks core pieces chunks core' ∧ Idle core' ∧
      core'.chunkSize = core.chunkSize := by
  induction h generalizing core with
  | nil => exact ⟨core, .nil core, hidle, rfl⟩
  | @cons piece chunk pieces chunks halone _ ih =>
      obtain ⟨core₁, hone, hover⟩ := halone.taken hs hidle (hroom chunk List.mem_cons_self)
      have hsize : core₁.chunkSize = core.chunkSize := by
        rw [hover.chunkSize, receiveChunk_eq]
        refine lastInRange_of_same fun msg hmsg size hann hrange => ?_
        rw [List.mem_singleton.1 hmsg] at hann
        exact absurd hrange (hkeep chunk List.mem_cons_self size hann)
      obtain ⟨core', hrest, hidle', hsize'⟩ := ih (hs.run hone.run) (hover.all_idle hidle)
        (fun c hc => by rw [hsize]; exact hroom c (List.mem_cons_of_mem _ hc))
        fun c hc => hkeep c (List.mem_cons_of_mem _ hc)
      exact ⟨core', hone.append hrest, hidle', hsize'.trans hsize⟩

/-! ### Changing the chunk size -/

theorem Sane.resize {core : ParserCore} (hs : Sane core) (hidle : Idle core) (n : UInt32) :
    Sane (core.resize n) :=
  ⟨hs.zero, hs.own, hs.length_lt, hs.received, hs.received_lt, .inl hidle⟩

/-- What an attempt that waits leaves behind does not depend on the chunk size. -/
theorem chunkStep_wait_resize {core s s' : ParserCore} {n : UInt32} {xs : List UInt8}
    (h : chunkStep core xs = .wait s) (h' : chunkStep (core.resize n) xs = .wait s') :
    s' = s.resize n := by
  rcases parseHeader_cases core.streams xs with ⟨w, rest, hfit, rfl⟩ | ⟨text, -, -, herr⟩
  · have hfit' : w.Fits (core.resize n).streams := hfit
    rw [chunkStep_bytes hfit] at h
    rw [chunkStep_bytes hfit'] at h'
    split at h
    · split at h'
      · rw [← Outcome.wait.inj h, ← Outcome.wait.inj h']
        rfl
      · cases h'
    · cases h
  · have herr' : parseHeader (core.resize n).streams xs = .error (.err text) := herr
    simp only [chunkStep, herr, Outcome.wait.injEq] at h
    simp only [chunkStep, herr', Outcome.wait.injEq] at h'
    rw [← h, ← h']

/-- **The messages arrive if the chunk size is changed behind a read**, be it in the middle of a chunk:
the chunks behind the last one that needs the old chunk size are whole messages, and both chunk sizes
have room for them. -/
theorem feedAll_resize {core core₁ : ParserCore} {pieces₁ pieces₂ : List Piece}
    {out chunks : List Chunk} {n : UInt32} (h₁ : WholeChunks core pieces₁ out core₁) (hs : Sane core)
    (hsize : InRange core.chunkSize) (hidle : Idle core₁) (h₂ : List.Forall₂ Alone pieces₂ chunks)
    (hroom₁ : ∀ chunk ∈ chunks, chunk.payload.length ≤ core₁.chunkSize.toNat)
    (hroom : ∀ chunk ∈ chunks, chunk.payload.length ≤ n.toNat)
    (hkeep : ∀ chunk ∈ chunks, ∀ size, announced chunk.message = some size → ¬ InRange size)
    {xs : List UInt8} {reads : List (List UInt8)}
    (hbytes : (pieces₁ ++ pieces₂).flatMap Piece.bytes = xs ++ reads.flatten)
    (hfar : out.length ≤ (chunkDecoder.feed (core, []) xs).2.length) :
    let r := chunkDecoder.feed (core, []) xs
    r.2 ++ (chunkDecoder.feedAll (r.1.1.resize n, r.1.2) reads).2 = out ++ chunks := by
  intro r
  have hs₁ := hs.run h₁.run
  obtain ⟨core₂, h₂', -, -⟩ := wholeChunks_alone h₂ hs₁ hidle hroom₁ hkeep
  obtain ⟨done, left, taken, stop, rest, hsplit, hdrain, hdone, hleft, hshort⟩ :=
    (h₁.append h₂').cut hbytes
  have hr : r = ((chunkDecoder.settle stop rest, rest), taken) := by
    simp only [r, Decoder.feed, List.nil_append, hdrain]
  -- the read has gone at least as far as the chunks that need the old chunk size
  have hreach : ∃ more, done = pieces₁ ++ more ∧ pieces₂ = more ++ left := by
    refine h₁.reached hs hsize hidle hdone hsplit ?_
    rwa [← show r.2 = taken by rw [hr]]
  obtain ⟨more, rfl, rfl⟩ := hreach
  -- so it stops between messages
  obtain ⟨chunks₁, chunks₂, hmore, hleft₂, rfl⟩ : ∃ chunks₁ chunks₂, List.Forall₂ Alone more chunks₁ ∧
      List.Forall₂ Alone left chunks₂ ∧ chunks = chunks₁ ++ chunks₂ := by
    exact ⟨chunks.take more.length, chunks.drop more.length,
      (List.forall₂_take_append chunks more left h₂.flip).flip,
      (List.forall₂_drop_append chunks more left h₂.flip).flip, (List.take_append_drop ..).symm⟩
  obtain ⟨core₃, hmore', hidle₃, -⟩ := wholeChunks_alone hmore hs₁ hidle
    (fun c hc => hroom₁ c (List.mem_append_left _ hc)) fun c hc =>
      hkeep c (List.mem_append_left _ hc)
  obtain ⟨rfl, rfl⟩ := (h₁.append hmore').unique hdone
  have hs₃ := hs₁.run hmore'.run
  obtain ⟨core₄, hleft', -, -⟩ := wholeChunks_alone hleft₂ (hs₃.resize hidle₃ n) hidle₃
    (fun c hc => hroom c (List.mem_append_right _ hc)) fun c hc =>
      hkeep c (List.mem_append_right _ hc)
  -- under the new chunk size the decoder waits for the same chunk
  have hwait : chunkDecoder.step core₃ rest = .wait (chunkDecoder.settle core₃ rest) := by
    obtain ⟨-, -, -, hwait⟩ := chunkDecoder.drain_spec core xs
    rwa [hdrain] at hwait
  obtain ⟨s, hwait'⟩ := hleft'.exists_wait hleft hshort
  rw [chunkStep_wait_resize hwait hwait'] at hwait'
  have hretry := @Decoder.feed_wait _ _ _ chunkDecoder _ _ [] rest hwait'
  have hall : (chunkDecoder.feedAll (core₃.resize n, []) (rest :: reads)).2 = chunks₂ := by
    rw [chunkDecoder.feedAll_flatten (feed_nil _), List.flatten_cons, ← hleft,
      feed_chunks hleft'.run]
    intro r₁ r₂ hsplit _
    refine @WholeChunks.quietEnd _ _ _ _ hleft' (hs₃.resize hidle₃ n) ?_ _ r₂.flatten ?_
    · intro piece hpiece
      obtain ⟨i, hi, rfl⟩ := List.getElem_of_mem hpiece
      exact (hleft₂.get hi (by rwa [← hleft₂.length_eq])).plain
    · rw [hleft, ← List.flatten_cons, hsplit, List.flatten_append]
  rw [chunkDecoder.feedAll_cons, hretry] at hall
  rw [hr]
  simp only [List.nil_append] at hall ⊢
  rw [hall, List.append_assoc]

end Rtmp
