/-
**The chunk size the parser applies.**

A `SetChunkSize` message is checked by the parser before it is applied: a value that is 0 or larger
than 16 MiB leaves the chunk size as it is.  So the chunk size of a parser is, after any number of
chunks, the last value in range that was announced in the messages it has handed over.

Main definitions:

* `Rtmp.Chunk.message`, `Rtmp.announced` — the message in a chunk, and the chunk size it announces;
* `Rtmp.InRange`, `Rtmp.lastInRange` — the values that are allowed, and the last of them announced.

Main results:

* `Rtmp.receiveChunk_eq` — what one message does to the chunk size;
* `Rtmp.feed_chunkSize` — **the parser applies the last value in range**.
-/

import RtmpTranscoder.ChunkInvariants

set_option relaxedAutoImplicit false
set_option autoImplicit false

namespace Rtmp

open Incremental

/-- The message in a chunk that the parser hands over. -/
def Chunk.message (chunk : Chunk) : Message where
  typeId := chunk.header.messageTypeId
  timestamp := chunk.header.timestamp
  streamId := chunk.header.messageStreamId
  payload := chunk.payload

/-- The chunk size that a message announces, if it is a `SetChunkSize` with a value in it. -/
def announced (msg : Message) : Option UInt32 :=
  if msg.typeId = MessageType.setChunkSize.code then
    (SetChunkSizeMessage.parse msg.payload).map SetChunkSizeMessage.chunkSize
  else none

/-! ### The last value in range -/

/-- A chunk size that is allowed. -/
def InRange (n : UInt32) : Prop := 1 ≤ n.toNat ∧ n.toNat ≤ 16777216

instance : DecidablePred InRange := fun _ => inferInstanceAs (Decidable (_ ∧ _))

/-- The last chunk size in range that is announced, or `n` if there is none. -/
def lastInRange (n : UInt32) (messages : List Message) : UInt32 :=
  ((messages.filterMap announced).filter (InRange ·)).getLastD n

@[simp] theorem lastInRange_nil (n : UInt32) : lastInRange n [] = n := rfl

theorem lastInRange_append (n : UInt32) (l₁ l₂ : List Message) :
    lastInRange n (l₁ ++ l₂) = lastInRange (lastInRange n l₁) l₂ := by
  simp only [lastInRange, List.filterMap_append, List.filter_append]
  generalize (l₂.filterMap announced).filter (InRange ·) = values
  induction values using List.reverseRecOn with
  | nil => rw [List.append_nil, List.getLastD_nil]
  | append_singleton values value _ =>
      rw [← List.append_assoc, List.getLastD_concat, List.getLastD_concat]

theorem inRange_lastInRange {n : UInt32} (hn : InRange n) (messages : List Message) :
    InRange (lastInRange n messages) := by
  rcases List.mem_cons.1 (List.getLastD_mem_cons (l :=
    (messages.filterMap announced).filter (InRange ·)) (a := n)) with h | h
  · rw [lastInRange, h]
    exact hn
  · exact of_decide_eq_true (List.mem_filter.1 h).2

/-- If the last value announced is in range, it is the last value in range. -/
theorem getLastD_eq_lastInRange {n : UInt32} {messages : List Message}
    (h : ∀ size, (messages.filterMap announced).getLast? = some size → InRange size) :
    (messages.filterMap announced).getLastD (lastInRange n messages) = lastInRange n messages := by
  unfold lastInRange
  generalize messages.filterMap announced = values at h ⊢
  induction values using List.reverseRecOn with
  | nil => rfl
  | append_singleton values value _ =>
      have hvalue := h value List.getLast?_concat
      rw [List.filter_append, List.filter_singleton, decide_eq_true hvalue, List.getLastD_concat]
      exact List.getLastD_concat.symm

/-- Messages that announce nothing in range but `n` leave it in force. -/
theorem lastInRange_of_same {n : UInt32} {messages : List Message}
    (h : ∀ msg ∈ messages, ∀ size, announced msg = some size → InRange size → size = n) :
    lastInRange n messages = n := by
  rcases List.mem_cons.1 (List.getLastD_mem_cons (l :=
    (messages.filterMap announced).filter (InRange ·)) (a := n)) with hlast | hlast
  · exact hlast
  · obtain ⟨hmem, hrange⟩ := List.mem_filter.1 hlast
    obtain ⟨msg, hmsg, hann⟩ := List.mem_filterMap.1 hmem
    exact h msg hmsg _ hann (of_decide_eq_true hrange)

/-- If they announce nothing but `n`, in range or not, then the last value they announce is `n`. -/
theorem getLastD_of_same {n : UInt32} {messages : List Message}
    (h : ∀ msg ∈ messages, ∀ size, announced msg = some size → size = n) :
    (messages.filterMap announced).getLastD n = n := by
  rcases List.mem_cons.1 (List.getLastD_mem_cons (l := messages.filterMap announced) (a := n))
    with hlast | hlast
  · exact hlast
  · obtain ⟨msg, hmsg, hann⟩ := List.mem_filterMap.1 hlast
    exact h msg hmsg _ hann

/-- So is the last value that is announced, if one of the messages before them announces `n`. -/
theorem getLastD_announced {n : UInt32} {msg : Message} (hmsg : announced msg = some n)
    (before : List Message) {after : List Message}
    (h : ∀ m ∈ after, ∀ size, announced m = some size → size = n) (old : UInt32) :
    ((before ++ msg :: after).filterMap announced).getLastD old = n := by
  have hlast := getLastD_of_same h
  rw [List.filterMap_append, List.filterMap_cons_some hmsg]
  generalize after.filterMap announced = values at hlast ⊢
  rw [List.getLastD_eq_getLast?, List.getLast?_append, List.getLast?_cons]
  rw [List.getLastD_eq_getLast?] at hlast
  simp [hlast]

/-! ### The parser applies the last value in range -/

theorem receiveChunk_eq (n : UInt32) (chunk : Chunk) :
    receiveChunk n chunk = lastInRange n [chunk.message] := by
  unfold receiveChunk lastInRange announced
  simp only [Chunk.message]
  by_cases htype : chunk.header.messageTypeId = MessageType.setChunkSize.code
  · simp only [if_pos htype]
    cases hparse : SetChunkSizeMessage.parse chunk.payload with
    | none => simp [htype, hparse]
    | some msg =>
        have hzero : msg.chunkSize = 0 ↔ msg.chunkSize.toNat = 0 := by
          rw [← UInt32.toNat_inj]
          rfl
        have hle : msg.chunkSize ≤ maxChunkSize ↔ msg.chunkSize.toNat ≤ 16777216 := by
          rw [UInt32.le_iff_toNat_le]
          rfl
        by_cases hrange : InRange msg.chunkSize
        · have hne : msg.chunkSize ≠ 0 := by
            rw [ne_eq, hzero]
            exact Nat.one_le_iff_ne_zero.1 hrange.1
          simp [htype, hparse, hrange, hne, hle.2 hrange.2]
        · have hout : msg.chunkSize = 0 ∨ ¬ msg.chunkSize ≤ maxChunkSize := by
            rw [hzero, hle]
            unfold InRange at hrange
            omega
          rcases hout with hout | hout
          · have hzero : ¬ InRange 0 := by decide
            simp [htype, hparse, hout, hzero]
          · simp [htype, hparse, hrange, hout]
  · simp [htype]

theorem collect_lastInRange (w : WireHeader) (core : ParserCore) (payload : List UInt8) :
    (w.collect core payload).1.chunkSize
      = lastInRange core.chunkSize ((w.collect core payload).2.map Chunk.message) := by
  by_cases hdone : (w.head core).messageLength ≤ (w.stream core).bytesReceived + w.need core
  · rw [w.collect_complete core hdone]
    exact receiveChunk_eq ..
  · rw [w.collect_incomplete core hdone]
    rfl

theorem Run.chunkSize {core core' : ParserCore} {bytes : List UInt8} {out : List Chunk}
    (h : chunkDecoder.Run core bytes out core') :
    core'.chunkSize = lastInRange core.chunkSize (out.map Chunk.message) := by
  induction h with
  | nil core => rfl
  | @cons core core₁ core₂ _ _ out out' hu _ ih =>
      obtain ⟨w, payload, -, -, -, -, -, hc⟩ := chunkStep_take hu
      have hfirst : core₁.chunkSize = lastInRange core.chunkSize (out.map Chunk.message) := by
        have := collect_lastInRange w core payload
        rwa [← hc] at this
      rw [List.map_append, lastInRange_append, ih, hfirst]

/-- **The parser applies the last value in range.** -/
theorem feed_chunkSize (c : ParserCore × List UInt8) (data : List UInt8) :
    (chunkDecoder.feed c data).1.1.chunkSize
      = lastInRange c.1.chunkSize ((chunkDecoder.feed c data).2.map Chunk.message) := by
  obtain ⟨bytes, -, hrun, hwait⟩ := chunkDecoder.drain_spec c.1 (c.2 ++ data)
  simp only [Decoder.feed, ← Run.chunkSize hrun]
  rcases chunkStep_wait hwait with ⟨-, heq⟩ | ⟨w, payload, -, -, -, heq⟩
  · rw [heq]
  · rw [heq]
    rfl

theorem feedAll_chunkSize (c : ParserCore × List UInt8) (reads : List (List UInt8)) :
    (chunkDecoder.feedAll c reads).1.1.chunkSize
      = lastInRange c.1.chunkSize ((chunkDecoder.feedAll c reads).2.map Chunk.message) := by
  induction reads generalizing c with
  | nil => rfl
  | cons data reads ih =>
      rw [chunkDecoder.feedAll_cons]
      simp only [List.map_append, lastInRange_append, ih, feed_chunkSize]

end Rtmp
