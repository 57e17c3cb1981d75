/-
**Writing in pieces.**

A sink is given one piece after the other, and accepts the beginning of each, from nothing to all of it.
What it has got is the beginning of what it was to get, as long as it accepts nothing more once a piece
has been cut.

Main definitions:

* `PartialWrites.accepted` — what a sink has got;
* `PartialWrites.Contiguous` — nothing is accepted behind a piece that has been cut.

Main results:

* `PartialWrites.accepted_prefix` — **what is accepted without a gap is the beginning of what is
  given**.
-/

import Mathlib

set_option relaxedAutoImplicit false
set_option autoImplicit false

namespace PartialWrites

variable {α : Type*}

/-- What a sink has got that accepts `counts` elements of the pieces that it is given. -/
def accepted (counts : List ℕ) (pieces : List (List α)) : List α :=
  (List.zipWith List.take counts pieces).flatten

/-- Nothing is accepted behind a piece that has been cut. -/
def Contiguous : List ℕ → List (List α) → Prop
  | n :: counts, piece :: pieces =>
      (n < piece.length → ∀ k ∈ counts, k = 0) ∧ Contiguous counts pieces
  | _, _ => True

@[simp] theorem accepted_nil (counts : List ℕ) : accepted counts ([] : List (List α)) = [] := by
  rw [accepted, List.zipWith_nil_right, List.flatten_nil]

@[simp] theorem accepted_cons (n : ℕ) (counts : List ℕ) (piece : List α) (pieces : List (List α)) :
    accepted (n :: counts) (piece :: pieces) = piece.take n ++ accepted counts pieces := rfl

theorem accepted_eq_nil {counts : List ℕ} (h : ∀ k ∈ counts, k = 0) (pieces : List (List α)) :
    accepted counts pieces = [] := by
  induction counts generalizing pieces with
  | nil => rfl
  | cons n counts ih =>
      cases pieces with
      | nil => exact accepted_nil _
      | cons piece pieces =>
          rw [accepted_cons, h n List.mem_cons_self, List.take_zero, List.nil_append]
          exact ih (fun k hk => h k (List.mem_cons_of_mem _ hk)) pieces

/-- **What is accepted without a gap is the beginning of what is given**, by induction on the pieces. -/
theorem accepted_prefix {counts : List ℕ} {pieces : List (List α)} (h : Contiguous counts pieces) :
    accepted counts pieces <+: pieces.flatten := by
  induction counts generalizing pieces with
  | nil => exact List.nil_prefix
  | cons n counts ih =>
      cases pieces with
      | nil =>
          rw [accepted_nil]
          exact List.nil_prefix
      | cons piece pieces =>
          obtain ⟨hcut, hrest⟩ := h
          rw [accepted_cons, List.flatten_cons]
          by_cases hwhole : piece.length ≤ n
          · rw [List.take_of_length_le hwhole, List.prefix_append_right_inj]
            exact ih hrest
          · rw [accepted_eq_nil (hcut (not_le.1 hwhole)), List.append_nil]
            exact (List.take_prefix n piece).trans (List.prefix_append piece pieces.flatten)

end PartialWrites
