/-
**Bodies behind their lengths.**

A length-prefixed format puts the length of each body, in a fixed number of symbols, before it.  A
reader that trusts the lengths takes one frame after the other, until it has as many as it wants or
what is left does not begin with a whole frame.  What it takes is the longest prefix that is made up
of frames: no other way of cutting gets further.

Nothing here mentions a particular format.  The symbols, the width of a length and its meaning are
parameters.

Main definitions:

* `Framing.IsLongestPrefix` — the longest prefix with a property;
* `Framing.Frames` — a list is made up of frames with given bodies;
* `Framing.split`, `Framing.read` — the first frame, and as many as there are up to a number;
* `Framing.bigEndian` — the number that bytes make.

Main results:

* `Framing.Frames.read_append` — frames are read, whatever follows;
* `Framing.read_spec` — what is read are frames, and the reader stops where there is no other;
* `Framing.isLongestPrefix_read` — **what is read is the longest prefix that is made up of frames**;
* `Framing.bigEndian_snoc`, `Framing.bigEndian_lt` — a number byte by byte, and its bound.
-/

import Mathlib

set_option relaxedAutoImplicit false
set_option autoImplicit false

namespace Framing

variable {α : Type*}

/-! ### Prefixes -/

/-- `pre` is the longest prefix of `data` with the property `P`. -/
structure IsLongestPrefix (P : List α → Prop) (data pre : List α) : Prop where
  holds : P pre
  initial : pre <+: data
  longest : ∀ other, P other → other <+: data → other.length ≤ pre.length

/-! ### Frames -/

/-- `Frames value n bytes bodies`: the list is made up of frames with these bodies.  A length has `n`
symbols, which stand for the number `value`. -/
inductive Frames (value : List α → ℕ) (n : ℕ) : List α → List (List α) → Prop
  | nil : Frames value n [] []
  | cons {len body rest : List α} {bodies : List (List α)} :
      len.length = n → value len = body.length → Frames value n rest bodies →
      Frames value n (len ++ (body ++ rest)) (body :: bodies)

/-- The first frame: its body, and what is behind it. -/
def split (value : List α → ℕ) (n : ℕ) (data : List α) : Option (List α × List α) :=
  if n ≤ data.length ∧ value (data.take n) ≤ (data.drop n).length then
    some ((data.drop n).take (value (data.take n)), (data.drop n).drop (value (data.take n)))
  else none

/-- At most `count` frames: their bodies, and what is behind them. -/
def read (value : List α → ℕ) (n : ℕ) : ℕ → List α → List (List α) × List α
  | 0, data => ([], data)
  | count + 1, data =>
      match split value n data with
      | none => ([], data)
      | some (body, rest) => (body :: (read value n count rest).1, (read value n count rest).2)

variable {value : List α → ℕ} {n count : ℕ} {data : List α} {bodies : List (List α)}

theorem split_eq_some_iff {body rest : List α} :
    split value n data = some (body, rest) ↔
      ∃ len, data = len ++ (body ++ rest) ∧ len.length = n ∧ value len = body.length := by
  unfold split
  constructor
  · intro h
    split at h
    · rename_i hfits
      obtain ⟨rfl, rfl⟩ := Prod.mk.inj (Option.some.inj h)
      refine ⟨data.take n, by simp, List.length_take_of_le hfits.1, ?_⟩
      rw [List.length_take_of_le hfits.2]
    · cases h
  · rintro ⟨len, rfl, rfl, hvalue⟩
    rw [List.take_left, List.drop_left, hvalue, List.take_left, List.drop_left, if_pos]
    exact ⟨by simp, by simp⟩

theorem read_none (h : split value n data = none) : read value n count data = ([], data) := by
  cases count with
  | zero => rfl
  | succ count => rw [read, h]

theorem read_some {body rest : List α} (h : split value n data = some (body, rest)) :
    read value n (count + 1) data =
      (body :: (read value n count rest).1, (read value n count rest).2) := by
  rw [read, h]

/-- **Frames are read, whatever follows.** -/
theorem Frames.read_append {bytes : List α} (h : Frames value n bytes bodies) (count : ℕ)
    (rest : List α) :
    read value n (bodies.length + count) (bytes ++ rest) =
      (bodies ++ (read value n count rest).1, (read value n count rest).2) := by
  induction h with
  | nil => simp
  | @cons len body bytes bodies hlen hvalue _ ih =>
      have hsplit : split value n (len ++ (body ++ bytes) ++ rest) = some (body, bytes ++ rest) :=
        split_eq_some_iff.2 ⟨len, by simp only [List.append_assoc], hlen, hvalue⟩
      have hcount : (body :: bodies).length + count = bodies.length + count + 1 := by
        rw [List.length_cons]
        omega
      rw [hcount, read_some hsplit, ih]
      rfl

/-- **What is read are frames, and the reader stops where there is no other.** -/
theorem read_spec (count : ℕ) (data : List α) :
    (∃ bytes, data = bytes ++ (read value n count data).2 ∧
      Frames value n bytes (read value n count data).1) ∧
    (read value n count data).1.length ≤ count ∧
    ((read value n count data).1.length < count →
      split value n (read value n count data).2 = none) := by
  induction count generalizing data with
  | zero => exact ⟨⟨[], rfl, .nil⟩, Nat.le_refl 0, fun h => absurd h (Nat.lt_irrefl 0)⟩
  | succ count ih =>
      cases hsplit : split value n data with
      | none =>
          rw [read_none hsplit]
          exact ⟨⟨[], rfl, .nil⟩, Nat.zero_le _, fun _ => hsplit⟩
      | some frame =>
          obtain ⟨body, rest⟩ := frame
          obtain ⟨⟨bytes, hbytes, hframes⟩, hle, hstop⟩ := ih rest
          obtain ⟨len, hdata, hlen, hvalue⟩ := split_eq_some_iff.1 hsplit
          rw [read_some hsplit]
          refine ⟨⟨len ++ (body ++ bytes), ?_, .cons hlen hvalue hframes⟩,
            Nat.succ_le_succ hle, fun h => hstop (Nat.lt_of_succ_lt_succ h)⟩
          rw [hdata]
          simp only [List.append_assoc]
          rw [← hbytes]

/-- Frames that the data begins with are read, and nothing in front of them is left. -/
theorem Frames.of_read {bytes : List α} (h : Frames value n bytes bodies) (hdata : bytes <+: data)
    (hcount : bodies.length ≤ count) :
    bodies <+: (read value n count data).1 ∧
      bytes.length + (read value n count data).2.length ≤ data.length := by
  obtain ⟨rest, rfl⟩ := hdata
  obtain ⟨more, rfl⟩ := Nat.exists_eq_add_of_le hcount
  obtain ⟨⟨bytes', hbytes', -⟩, -, -⟩ := @read_spec _ value n more rest
  have hlen := congrArg List.length hbytes'
  rw [List.length_append] at hlen
  rw [h.read_append more rest]
  refine ⟨List.prefix_append .., ?_⟩
  simp only [List.length_append]
  omega

/-- **What is read is the longest prefix that is made up of at most so many frames.** -/
theorem isLongestPrefix_read (count : ℕ) (data : List α) :
    ∃ bytes, data = bytes ++ (read value n count data).2 ∧
      Frames value n bytes (read value n count data).1 ∧
      IsLongestPrefix (fun bytes => ∃ bodies, Frames value n bytes bodies ∧ bodies.length ≤ count)
        data bytes := by
  obtain ⟨⟨bytes, hbytes, hframes⟩, hle, -⟩ := @read_spec _ value n count data
  refine ⟨bytes, hbytes, hframes, ⟨_, hframes, hle⟩, ⟨_, hbytes.symm⟩, ?_⟩
  rintro other ⟨bodies, hother, hcount⟩ hpre
  obtain ⟨-, hlonger⟩ := hother.of_read hpre hcount
  have hlen := congrArg List.length hbytes
  rw [List.length_append] at hlen
  omega

theorem Frames.length_le {bytes : List α} (h : Frames value n bytes bodies) :
    bodies.length * n ≤ bytes.length := by
  induction h with
  | nil => simp
  | @cons len body rest bodies hlen _ _ ih =>
      rw [List.length_cons, Nat.succ_mul, List.length_append, List.length_append, hlen]
      omega

theorem Frames.length_eq {bytes : List α} (h : Frames value n bytes bodies) :
    bytes.length = (bodies.map fun body => n + body.length).sum := by
  induction h with
  | nil => rfl
  | @cons len body rest bodies hlen _ _ ih =>
      rw [List.map_cons, List.sum_cons, ← ih, List.length_append, List.length_append, hlen]
      omega

/-- Frames with the same bodies that the same data begins with are the same. -/
theorem Frames.eq_of_initial {bytes bytes' : List α} (h : Frames value n bytes bodies)
    (h' : Frames value n bytes' bodies) (hdata : bytes <+: data) (hdata' : bytes' <+: data) :
    bytes = bytes' := by
  have hlen := h.length_eq.trans h'.length_eq.symm
  exact (List.prefix_of_prefix_length_le hdata hdata' (Nat.le_of_eq hlen)).eq_of_length hlen

/-! ### Numbers -/

/-- The number that bytes make, the most significant one first. -/
def bigEndian (bytes : List UInt8) : ℕ := bytes.foldl (fun k byte => k * 256 + byte.toNat) 0

theorem bigEndian_snoc (bytes : List UInt8) (byte : UInt8) :
    bigEndian (bytes ++ [byte]) = bigEndian bytes * 256 + byte.toNat := by
  rw [bigEndian, List.foldl_append]
  rfl

theorem bigEndian_lt (bytes : List UInt8) : bigEndian bytes < 256 ^ bytes.length := by
  induction bytes using List.reverseRecOn with
  | nil => exact Nat.one_pos
  | append_singleton bytes byte ih =>
      have hbyte := byte.toNat_lt
      rw [bigEndian_snoc, List.length_append, List.length_singleton, Nat.pow_succ]
      omega

end Framing
