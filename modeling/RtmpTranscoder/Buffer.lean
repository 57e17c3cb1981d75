/-
**The outgoing buffer.**

`net/buffer.cpp` keeps the bytes that are not sent yet in a `std::vector` and remembers where they
begin and end.  `clear` forgets them without touching the vector, so that the vector's own size says
nothing about what the buffer holds; `append` writes behind them, after the vector has been made
larger or the bytes have been moved to its front.

How much memory a vector reserves when it grows is left to the library: it is a parameter, of which
nothing is used but that the vector fits.

Main definitions:

* `Rtmp.GrowthPolicy`, `Rtmp.Vec` — a `std::vector<uint8_t>` with its reserved memory;
* `Rtmp.Buffer` — the buffer, with `append`, `consume`, `compact`, `clear`, `reserve`, `readable` and
  `empty`;
* `Rtmp.Buffer.Plain` — the buffer has never been read in part.

Main results:

* `Rtmp.Buffer.Plain.append`, `Rtmp.Buffer.plain_clear` — such a buffer stays one;
* `Rtmp.Buffer.Plain.readable_append` — **what is appended is behind what was there**.
-/

import RtmpTranscoder.Bytes

set_option relaxedAutoImplicit false
set_option autoImplicit false

namespace Rtmp

/-! ### The vector -/

/-- The memory a vector reserves when what it must hold does not fit: from its capacity, its size
and the size it must have. -/
structure GrowthPolicy where
  next : ℕ → ℕ → ℕ → ℕ
  le_next : ∀ capacity size needed, needed ≤ next capacity size needed

/-- The library reserves no more than what is needed. -/
def GrowthPolicy.exact : GrowthPolicy where
  next _ _ needed := needed
  le_next _ _ needed := Nat.le_refl needed

/-- `std::vector<uint8_t>`.  The memory behind `size` is reserved, and nobody may rely on what it
holds; fresh memory is modelled as zeros. -/
structure Vec where
  policy : GrowthPolicy
  memory : List UInt8
  size : ℕ
  size_le : size ≤ memory.length

namespace Vec

/-- A vector that has reserved nothing. -/
def new (policy : GrowthPolicy) : Vec where
  policy := policy
  memory := []
  size := 0
  size_le := Nat.le_refl 0

/-- `capacity`. -/
def capacity (v : Vec) : ℕ := v.memory.length

/-- `resize`: what is new is zero. -/
def resize (v : Vec) (n : ℕ) : Vec :=
  let kept := v.memory.take (min v.size n) ++ List.replicate (n - v.size) 0
  let reserved :=
    if n ≤ v.capacity then v.memory.drop n
    else List.replicate (v.policy.next v.capacity v.size n - n) 0
  { policy := v.policy
    memory := kept ++ reserved
    size := n
    size_le := by
      have := v.size_le
      simp only [kept, List.length_append, List.length_take, List.length_replicate]
      omega }

/-- `reserve`.  `extra` is what the library reserves beyond what it is asked for. -/
def reserve (v : Vec) (n extra : ℕ) : Vec :=
  if n ≤ v.capacity then v
  else
    { policy := v.policy
      memory := v.memory.take v.size ++ List.replicate (n + extra - v.size) 0
      size := v.size
      size_le := by
        have := v.size_le
        simp only [List.length_append, List.length_take, List.length_replicate]
        omega }

/-- `std::memcpy` and `std::memmove` to the memory of the vector, from `pos` on. -/
def write (v : Vec) (pos : ℕ) (data : List UInt8) : Vec :=
  { v with
    memory := v.memory.take pos ++ data ++ v.memory.drop (pos + data.length)
    size_le := by
      have := v.size_le
      simp only [List.length_append, List.length_take, List.length_drop]
      omega }

@[simp] theorem size_resize (v : Vec) (n : ℕ) : (v.resize n).size = n := rfl

@[simp] theorem size_write (v : Vec) (pos : ℕ) (data : List UInt8) :
    (v.write pos data).size = v.size := rfl

@[simp] theorem size_reserve (v : Vec) (n extra : ℕ) : (v.reserve n extra).size = v.size := by
  rw [reserve]
  split <;> rfl

theorem take_reserve {v : Vec} {k : ℕ} (hk : k ≤ v.size) (n extra : ℕ) :
    (v.reserve n extra).memory.take k = v.memory.take k := by
  have hsize := v.size_le
  rw [reserve]
  split
  · rfl
  · rw [List.take_append_of_le_length (by rw [List.length_take]; omega), List.take_take,
      Nat.min_eq_left hk]

theorem take_resize {v : Vec} {k n : ℕ} (hk : k ≤ v.size) (hn : v.size ≤ n) :
    (v.resize n).memory.take k = v.memory.take k := by
  have hsize := v.size_le
  simp only [resize, Nat.min_eq_left hn, List.append_assoc]
  rw [List.take_append_of_le_length (by rw [List.length_take]; omega), List.take_take,
    Nat.min_eq_left hk]

theorem take_write {v : Vec} {pos : ℕ} (hpos : pos ≤ v.capacity) (data : List UInt8) :
    (v.write pos data).memory.take (pos + data.length) = v.memory.take pos ++ data := by
  have hlen : (v.memory.take pos ++ data).length = pos + data.length := by
    rw [List.length_append, List.length_take_of_le hpos]
  simp only [write]
  rw [← hlen, List.take_left]

end Vec

/-! ### The buffer -/

/-- `Buffer`. -/
structure Buffer where
  buffer : Vec
  readPos : ℕ
  writePos : ℕ

namespace Buffer

/-- `Buffer::Buffer()`. -/
def new (policy : GrowthPolicy) : Buffer where
  buffer := Vec.new policy
  readPos := 0
  writePos := 0

/-- `Buffer::Buffer(capacity)`. -/
def withCapacity (policy : GrowthPolicy) (capacity extra : ℕ) : Buffer :=
  { new policy with buffer := (Vec.new policy).reserve capacity extra }

/-- `Buffer::size`. -/
def size (b : Buffer) : ℕ := b.writePos - b.readPos

/-- `Buffer::compact`. -/
def compact (b : Buffer) : Buffer :=
  if 0 < b.readPos then
    let dataSize := b.writePos - b.readPos
    { buffer := b.buffer.write 0 ((b.buffer.memory.drop b.readPos).take dataSize)
      readPos := 0
      writePos := dataSize }
  else b

/-- The first half of `Buffer::append`: there is room for `len` bytes afterwards. -/
def makeRoom (b : Buffer) (len : ℕ) : Buffer :=
  if b.buffer.size < b.writePos + len then
    if 0 < b.readPos ∧ b.writePos - b.readPos + len ≤ b.buffer.capacity then b.compact
    else { b with buffer := b.buffer.resize (b.writePos + len) }
  else b

/-- `Buffer::append`. -/
def append (b : Buffer) (data : List UInt8) : Buffer :=
  let b := b.makeRoom data.length
  { b with
    buffer := b.buffer.write b.writePos data
    writePos := b.writePos + data.length }

/-- `Buffer::clear`. -/
def clear (b : Buffer) : Buffer :=
  { b with readPos := 0, writePos := 0 }

/-- `Buffer::consume`. -/
def consume (b : Buffer) (n : ℕ) : Buffer :=
  let readPos := b.readPos + min n b.size
  if readPos = b.writePos then { b with readPos := 0, writePos := 0 }
  else { b with readPos := readPos }

/-- `Buffer::reserve`. -/
def reserve (b : Buffer) (capacity extra : ℕ) : Buffer :=
  if b.buffer.capacity < capacity then
    let b := b.compact
    { b with buffer := b.buffer.reserve capacity extra }
  else b

/-- `Buffer::empty`. -/
def empty (b : Buffer) : Bool := b.readPos == b.writePos

/-- `Buffer::readable`. -/
def readable (b : Buffer) : List UInt8 :=
  (b.buffer.memory.drop b.readPos).take (b.writePos - b.readPos)

/-- The buffer has never been read in part: what it holds begins at the front, and within the size
of the vector. -/
structure Plain (b : Buffer) : Prop where
  readPos : b.readPos = 0
  writePos_le : b.writePos ≤ b.buffer.size

theorem Plain.new (policy : GrowthPolicy) : (Buffer.new policy).Plain where
  readPos := rfl
  writePos_le := Nat.le_refl 0

@[simp] theorem readable_new (policy : GrowthPolicy) : (Buffer.new policy).readable = [] := rfl

theorem Plain.readable {b : Buffer} (h : b.Plain) :
    b.readable = b.buffer.memory.take b.writePos := by
  rw [Buffer.readable, h.readPos, List.drop_zero, Nat.sub_zero]

theorem Plain.makeRoom {b : Buffer} (h : b.Plain) (len : ℕ) :
    (b.makeRoom len).readPos = 0 ∧ (b.makeRoom len).writePos = b.writePos ∧
      b.writePos + len ≤ (b.makeRoom len).buffer.size ∧
      (b.makeRoom len).buffer.memory.take b.writePos = b.buffer.memory.take b.writePos := by
  have hread := h.readPos
  have hwrite := h.writePos_le
  unfold Buffer.makeRoom
  split
  · rename_i hfull
    -- nothing has been read, so there is nothing to gain from moving the bytes
    rw [if_neg (by omega)]
    exact ⟨hread, rfl, Nat.le_refl _, Vec.take_resize hwrite (by omega)⟩
  · rename_i hroom
    exact ⟨hread, rfl, by omega, rfl⟩

theorem Plain.append {b : Buffer} (h : b.Plain) (data : List UInt8) : (b.append data).Plain := by
  obtain ⟨hread, hwrite, hroom, -⟩ := h.makeRoom data.length
  refine ⟨hread, ?_⟩
  simp only [Buffer.append, Vec.size_write, hwrite]
  exact hroom

/-- **What is appended is behind what was there.** -/
theorem Plain.readable_append {b : Buffer} (h : b.Plain) (data : List UInt8) :
    (b.append data).readable = b.readable ++ data := by
  obtain ⟨-, hwrite, hroom, hkept⟩ := h.makeRoom data.length
  have hsize := (b.makeRoom data.length).buffer.size_le
  have hcapacity : b.writePos ≤ (b.makeRoom data.length).buffer.capacity := by
    rw [Vec.capacity]
    omega
  rw [(h.append data).readable, h.readable]
  simp only [Buffer.append, hwrite]
  rw [Vec.take_write hcapacity, hkept]

theorem plain_clear (b : Buffer) : b.clear.Plain where
  readPos := rfl
  writePos_le := Nat.zero_le _

@[simp] theorem readable_clear (b : Buffer) : b.clear.readable = [] := by
  simp [Buffer.readable, Buffer.clear]

end Buffer

end Rtmp
