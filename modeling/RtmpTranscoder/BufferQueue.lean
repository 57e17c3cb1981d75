/-
**The outgoing buffer as a queue of bytes.**

A buffer is meant to be a queue: what is appended goes to its end, what is consumed leaves at its
front, and reserving memory changes nothing.  Its bytes lie in a vector, between two positions, and
they are safe there as long as the second position is within the vector's size: what lies behind the
size is overwritten with zeros when the vector grows.

`append` makes room in one of two ways.  It moves the bytes to the front of the vector if they then
fit *in the memory the vector has reserved*, and makes the vector larger otherwise.  What would have
to be asked is whether they then fit in its *size*: the memory reserved may be more, and bytes that
are written there are outside the vector.

Main definitions:

* `Rtmp.BufferCall`, `Rtmp.Buffer.call`, `Rtmp.fifo` — the calls on a buffer, and what they do to a
  queue;
* `Rtmp.Buffer.Refines` — the buffer holds what the queue holds, within its vector;
* `Rtmp.Buffer.Fits` — what is moved to the front to make room is moved to where there is room.

Main results:

* `Rtmp.Buffer.readable_append` — what is appended can be read behind what was there;
* `Rtmp.Buffer.refines_append_iff` — it lies within the vector exactly if it fits;
* `Rtmp.Buffer.refines_run_iff` — **a buffer is a queue along a run of calls exactly if everything that
  is appended fits**.
-/

import RtmpTranscoder.Buffer
import RtmpTranscoder.Machine

set_option relaxedAutoImplicit false
set_option autoImplicit false

namespace Rtmp

/-! ### The calls -/

/-- A call on a buffer.  `extra` is what the library reserves beyond what it is asked for. -/
inductive BufferCall where
  | append (data : List UInt8)
  | consume (n : ℕ)
  | clear
  | reserve (capacity extra : ℕ)

/-- What a call does to a queue of bytes. -/
def fifo (queue : List UInt8) : BufferCall → List UInt8
  | .append data => queue ++ data
  | .consume n => queue.drop n
  | .clear => []
  | .reserve _ _ => queue

namespace Buffer

/-- What a call does to a buffer. -/
def call (b : Buffer) : BufferCall → Buffer
  | .append data => b.append data
  | .consume n => b.consume n
  | .clear => b.clear
  | .reserve capacity extra => b.reserve capacity extra

@[simp] theorem call_append (b : Buffer) (data : List UInt8) :
    b.call (.append data) = b.append data := rfl

@[simp] theorem call_consume (b : Buffer) (n : ℕ) : b.call (.consume n) = b.consume n := rfl

@[simp] theorem call_clear (b : Buffer) : b.call .clear = b.clear := rfl

@[simp] theorem call_reserve (b : Buffer) (capacity extra : ℕ) :
    b.call (.reserve capacity extra) = b.reserve capacity extra := rfl

/-! ### The bytes of a buffer -/

/-- The positions are in order, and within the vector. -/
structure InOrder (b : Buffer) : Prop where
  readPos_le : b.readPos ≤ b.writePos
  writePos_le : b.writePos ≤ b.buffer.size

/-- The positions are in order, and within the memory. -/
structure InMemory (b : Buffer) : Prop where
  readPos_le : b.readPos ≤ b.writePos
  writePos_le : b.writePos ≤ b.buffer.capacity

theorem InOrder.inMemory {b : Buffer} (h : b.InOrder) : b.InMemory where
  readPos_le := h.readPos_le
  writePos_le := h.writePos_le.trans b.buffer.size_le

theorem readable_eq (b : Buffer) : b.readable = (b.buffer.memory.take b.writePos).drop b.readPos := by
  rw [readable, List.drop_take]

theorem InMemory.length_readable {b : Buffer} (h : b.InMemory) : b.readable.length = b.size := by
  have hwrite := h.writePos_le
  rw [Vec.capacity] at hwrite
  rw [readable_eq, List.length_drop, List.length_take, Nat.min_eq_left hwrite, size]

theorem readable_of_eq {b : Buffer} (h : b.readPos = b.writePos) : b.readable = [] := by
  rw [readable, h, Nat.sub_self, List.take_zero]

theorem compact_of_zero {b : Buffer} (h : b.readPos = 0) : b.compact = b := by
  rw [compact, if_neg (by omega)]

theorem compact_positions (b : Buffer) : b.compact.readPos = 0 ∧ b.compact.writePos = b.size ∧
    b.compact.buffer.size = b.buffer.size := by
  rcases Nat.eq_zero_or_pos b.readPos with hzero | hpos
  · rw [compact_of_zero hzero, size, hzero]
    exact ⟨rfl, rfl, rfl⟩
  · rw [compact, if_pos hpos]
    exact ⟨rfl, rfl, rfl⟩

theorem InMemory.readable_compact {b : Buffer} (h : b.InMemory) : b.compact.readable = b.readable := by
  rcases Nat.eq_zero_or_pos b.readPos with hzero | hpos
  · rw [compact_of_zero hzero]
  · have hlength := h.length_readable
    have htake := Vec.take_write (Nat.zero_le b.buffer.capacity) b.readable
    rw [Nat.zero_add, List.take_zero, List.nil_append, hlength] at htake
    rw [readable_eq, compact, if_pos hpos]
    exact htake

theorem capacity_compact {b : Buffer} (h : b.InMemory) :
    b.compact.buffer.capacity = b.buffer.capacity := by
  have hlength := h.length_readable
  have hread := h.readPos_le
  have hwrite := h.writePos_le
  rcases Nat.eq_zero_or_pos b.readPos with hzero | hpos
  · rw [compact_of_zero hzero]
  · rw [compact, if_pos hpos]
    change (b.buffer.write 0 b.readable).capacity = _
    simp only [Vec.capacity, Vec.write, List.length_append, List.length_take, List.length_drop] at *
    rw [size] at hlength
    omega

/-! ### Appending -/

/-- What is moved to the front to make room for `len` bytes is moved to where there is room for them:
in the vector, and not only in the memory it has reserved. -/
def Fits (b : Buffer) (len : ℕ) : Prop :=
  b.buffer.size < b.writePos + len → 0 < b.readPos → b.size + len ≤ b.buffer.capacity →
    b.size + len ≤ b.buffer.size

/-- Making room keeps what is there, and there is room afterwards, in the memory; it is in the vector
exactly if what is appended fits. -/
theorem InOrder.makeRoom {b : Buffer} (h : b.InOrder) (len : ℕ) :
    (b.makeRoom len).readable = b.readable ∧ (b.makeRoom len).readPos ≤ (b.makeRoom len).writePos ∧
      (b.makeRoom len).writePos + len ≤ (b.makeRoom len).buffer.capacity ∧
      ((b.makeRoom len).writePos + len ≤ (b.makeRoom len).buffer.size ↔ b.Fits len) := by
  have hread := h.readPos_le
  have hwrite := h.writePos_le
  have hsize := b.buffer.size_le
  rw [Buffer.makeRoom]
  by_cases hfull : b.buffer.size < b.writePos + len
  · rw [if_pos hfull]
    by_cases hmove : 0 < b.readPos ∧ b.size + len ≤ b.buffer.capacity
    · obtain ⟨hreadPos, hwritePos, hsizes⟩ := b.compact_positions
      have hmoved : 0 < b.readPos ∧ b.writePos - b.readPos + len ≤ b.buffer.capacity := hmove
      rw [if_pos hmoved, h.inMemory.readable_compact, hreadPos, hwritePos, hsizes,
        capacity_compact h.inMemory]
      exact ⟨rfl, Nat.zero_le _, hmove.2, fun hroom _ _ _ => hroom,
        fun hfits => hfits hfull hmove.1 hmove.2⟩
    · have hstay : ¬ (0 < b.readPos ∧ b.writePos - b.readPos + len ≤ b.buffer.capacity) := hmove
      rw [if_neg hstay]
      refine ⟨?_, hread, (b.buffer.resize (b.writePos + len)).size_le, ?_⟩
      · rw [readable_eq, readable_eq]
        exact congrArg _ (Vec.take_resize hwrite (by omega))
      · refine ⟨fun _ _ hpos hroom => absurd ⟨hpos, hroom⟩ hmove, fun _ => Nat.le_refl _⟩
  · rw [if_neg hfull]
    refine ⟨rfl, hread, ?_, fun _ hfull' => absurd hfull' hfull, fun _ => Nat.le_of_not_lt hfull⟩
    rw [Vec.capacity]
    omega

/-- **What is appended can be read behind what was there**, wherever it has been written. -/
theorem InOrder.readable_append {b : Buffer} (h : b.InOrder) (data : List UInt8) :
    (b.append data).readable = b.readable ++ data := by
  obtain ⟨hkept, hread, hroom, -⟩ := h.makeRoom data.length
  have hcapacity : (b.makeRoom data.length).writePos ≤ (b.makeRoom data.length).buffer.capacity :=
    (Nat.le_add_right _ _).trans hroom
  have htake := Vec.take_write hcapacity data
  rw [← hkept, readable_eq, readable_eq]
  simp only [append]
  rw [htake, List.drop_append_of_le_length]
  rwa [List.length_take_of_le hcapacity]

theorem InOrder.append_iff {b : Buffer} (h : b.InOrder) (data : List UInt8) :
    (b.append data).InOrder ↔ b.Fits data.length := by
  obtain ⟨-, hread, -, hfits⟩ := h.makeRoom data.length
  constructor
  · intro hafter
    exact hfits.1 hafter.writePos_le
  · intro hfit
    exact ⟨hread.trans (Nat.le_add_right _ _), hfits.2 hfit⟩

/-! ### The other calls -/

theorem InOrder.consume {b : Buffer} (h : b.InOrder) (n : ℕ) : (b.consume n).InOrder := by
  have hread := h.readPos_le
  have hwrite := h.writePos_le
  rw [Buffer.consume]
  split
  · exact ⟨Nat.le_refl 0, Nat.zero_le _⟩
  · refine ⟨?_, hwrite⟩
    simp only [size]
    omega

theorem InOrder.readable_consume {b : Buffer} (h : b.InOrder) (n : ℕ) :
    (b.consume n).readable = b.readable.drop n := by
  have hlength := h.inMemory.length_readable
  have hread := h.readPos_le
  rw [Buffer.consume]
  split
  · rename_i hall
    rw [readable_of_eq rfl, List.drop_eq_nil_of_le]
    rw [hlength]
    simp only [size] at hall ⊢
    omega
  · rename_i hleft
    have hmin : min n b.size = n := by
      simp only [size] at hleft ⊢
      omega
    simp only [hmin]
    rw [readable_eq, readable_eq, List.drop_drop]

theorem InOrder.reserve {b : Buffer} (h : b.InOrder) (capacity extra : ℕ) :
    (b.reserve capacity extra).InOrder := by
  obtain ⟨hread, hwrite, hsizes⟩ := b.compact_positions
  have hwithin := h.writePos_le
  rw [Buffer.reserve]
  split
  · constructor
    · simp only [hread]
      exact Nat.zero_le _
    · simp only [hwrite, Vec.size_reserve, hsizes, size]
      omega
  · exact h

theorem InOrder.readable_reserve {b : Buffer} (h : b.InOrder) (capacity extra : ℕ) :
    (b.reserve capacity extra).readable = b.readable := by
  obtain ⟨-, hwrite, hsizes⟩ := b.compact_positions
  have hwithin := h.writePos_le
  rw [Buffer.reserve]
  split
  · rw [← h.inMemory.readable_compact, readable_eq, readable_eq]
    refine congrArg _ (Vec.take_reserve ?_ capacity extra)
    rw [hwrite, hsizes, size]
    omega
  · rfl

/-! ### The run -/

/-- The buffer holds what the queue holds, within its vector. -/
structure Refines (b : Buffer) (queue : List UInt8) : Prop extends InOrder b where
  readable : b.readable = queue

theorem Refines.withCapacity (policy : GrowthPolicy) (capacity extra : ℕ) :
    (Buffer.withCapacity policy capacity extra).Refines [] where
  readPos_le := Nat.le_refl 0
  writePos_le := Nat.zero_le _
  readable := readable_of_eq rfl

/-- The call does not append, or what it appends fits. -/
def Accepts (b : Buffer) (c : BufferCall) : Prop := ∀ data, c = .append data → b.Fits data.length

/-- A call keeps the buffer a queue exactly if what it appends fits. -/
theorem Refines.call_iff {b : Buffer} {queue : List UInt8} (h : b.Refines queue) (c : BufferCall) :
    (b.call c).Refines (fifo queue c) ↔ b.Accepts c := by
  obtain ⟨hb, rfl⟩ := h
  cases c with
  | append data =>
      constructor
      · rintro ⟨hafter, -⟩ data' hdata
        cases hdata
        exact (hb.append_iff data).1 hafter
      · intro haccepts
        exact ⟨(hb.append_iff data).2 (haccepts data rfl), hb.readable_append data⟩
  | consume n =>
      exact iff_of_true ⟨hb.consume n, hb.readable_consume n⟩ fun _ heq => by cases heq
  | clear =>
      exact iff_of_true ⟨⟨Nat.le_refl 0, Nat.zero_le _⟩, b.readable_clear⟩ fun _ heq => by cases heq
  | reserve capacity extra =>
      exact iff_of_true ⟨hb.reserve capacity extra, hb.readable_reserve capacity extra⟩
        fun _ heq => by cases heq

/-- **A buffer is a queue along a run of calls exactly if everything that is appended fits**: after
each call the buffer holds what the queue holds, its positions in order and within the vector. -/
theorem refines_run_iff (policy : GrowthPolicy) (capacity extra : ℕ) (calls : List BufferCall) :
    (∀ before, before <+: calls →
      let b := before.foldl call (withCapacity policy capacity extra)
      b.readable = before.foldl fifo [] ∧ b.readPos ≤ b.writePos ∧ b.writePos ≤ b.buffer.size) ↔
      ∀ before data, before ++ [.append data] <+: calls →
        (before.foldl call (withCapacity policy capacity extra)).Fits data.length := by
  have hiff := @Machine.refines_foldl_iff _ _ _ call fifo Refines Accepts (fun h => h.call_iff _) _ _
    (Refines.withCapacity policy capacity extra) calls
  constructor
  · intro hqueue before data hpre
    refine hiff.1 (fun before hpre => ?_) before _ hpre data rfl
    obtain ⟨hreadable, hread, hwrite⟩ := hqueue before hpre
    exact ⟨⟨hread, hwrite⟩, hreadable⟩
  · intro hfits before hpre
    have hrefines := hiff.2 (fun before c hpre data hc => hfits before data (hc ▸ hpre)) before
      hpre
    exact ⟨hrefines.readable, hrefines.readPos_le, hrefines.writePos_le⟩

/-- Four bytes are reserved and three are held, of which two are left when three more arrive: they are
written outside the vector, and lost when it grows. -/
theorem refines_run_lost : ¬ ∀ (policy : GrowthPolicy) (capacity extra : ℕ) (calls : List BufferCall),
    let b := calls.foldl call (withCapacity policy capacity extra)
    b.readable = calls.foldl fifo [] ∧ b.readPos ≤ b.writePos ∧ b.writePos ≤ b.buffer.size := by
  intro hall
  have hlost := (hall .exact 4 0 [.append [1, 2], .consume 1, .append [3, 4], .append [5, 6]]).1
  revert hlost
  decide

end Buffer

end Rtmp
