/-
**Incremental decoders.**

A decoder that reads a stream in pieces keeps the bytes it could not use yet and tries again when
more arrive.  One attempt either *waits* for more input or *takes* a whole unit off the front of
what is at hand; a unit that is not complete is decoded again, from its first byte, at the next
attempt.  This module develops such decoders in general: nothing here mentions a particular
format.

An attempt that waits may nevertheless change the state.  Whether that is harmless is the one
question that decides if the cuts of the stream can be observed, so it is isolated as
`Decoder.Quiet`: the state left behind by the attempt answers every longer input as the state
before it would have.

Main definitions:

* `Incremental.Decoder` — a step function with the two laws that make it incremental: a unit that
  is taken is not empty, and whether and how it is taken depends on its own bytes only;
* `Incremental.Decoder.Run` — taking several whole units in a row;
* `Incremental.Decoder.drain` — taking units until the decoder waits;
* `Incremental.Decoder.feed`, `Incremental.Decoder.feedAll` — one read, and a list of reads, given
  to a decoder that buffers what it has not used;
* `Incremental.Decoder.Quiet`, `Incremental.Decoder.QuietEnd` — the attempt that ends a read
  leaves no trace.

Main results:

* `Incremental.Decoder.drain_spec` — what is taken and what is left make up the input;
* `Incremental.Decoder.Run.drain` — whole units at the front are taken whatever follows them;
* `Incremental.Decoder.feed_append` — **two reads are one read of both**, if the first ends
  quietly;
* `Incremental.Decoder.feedAll_flatten` — so is every list of reads, if all but the last do.
-/

import Mathlib

set_option relaxedAutoImplicit false
set_option autoImplicit false

namespace Incremental

/-- The answer of a decoder to the input at hand: it waits for more, or it takes the first `n`
elements and yields what they decode to. -/
inductive Outcome (σ ω : Type*) where
  | wait (s : σ)
  | take (n : ℕ) (s : σ) (out : List ω)

/-- An incremental decoder. -/
structure Decoder (σ β ω : Type*) where
  /-- One attempt on the input at hand. -/
  step : σ → List β → Outcome σ ω
  /-- A unit that is taken is not empty. -/
  take_pos : ∀ {s xs n s' out}, step s xs = .take n s' out → 0 < n
  /-- A unit that is taken is at hand. -/
  take_le : ∀ {s xs n s' out}, step s xs = .take n s' out → n ≤ xs.length
  /-- A unit is taken for its own sake, whatever follows it. -/
  take_local : ∀ {s xs n s' out}, step s xs = .take n s' out →
    ∀ ys, step s (xs.take n ++ ys) = .take n s' out

namespace Decoder

variable {σ β ω : Type*} (D : Decoder σ β ω)

theorem take_append {s s' : σ} {xs : List β} {n : ℕ} {out : List ω}
    (h : D.step s xs = .take n s' out) (ys : List β) :
    D.step s (xs ++ ys) = .take n s' out := by
  have := D.take_local h (xs.drop n ++ ys)
  rwa [← List.append_assoc, List.take_append_drop] at this

/-- The state after an attempt that waits. -/
def settle (s : σ) (xs : List β) : σ :=
  match D.step s xs with
  | .wait s' => s'
  | .take _ _ _ => s

theorem settle_eq {s s' : σ} {xs : List β} (h : D.step s xs = .wait s') : D.settle s xs = s' := by
  simp only [settle, h]

/-! ### Whole units -/

/-- `D.Run s w out s'`: from `s`, the input `w` is taken as a sequence of whole units, which yield
`out` and lead to `s'`. -/
inductive Run : σ → List β → List ω → σ → Prop
  | nil (s : σ) : Run s [] [] s
  | cons {s s₁ s₂ : σ} {u w : List β} {out out' : List ω} :
      D.step s u = .take u.length s₁ out → Run s₁ w out' s₂ → Run s (u ++ w) (out ++ out') s₂

namespace Run

variable {D}

theorem single {s s' : σ} {u : List β} {out : List ω} (h : D.step s u = .take u.length s' out) :
    D.Run s u out s' := by
  simpa using Run.cons h (Run.nil s')

theorem trans {s s₁ s₂ : σ} {w w' : List β} {out out' : List ω} (h : D.Run s w out s₁)
    (h' : D.Run s₁ w' out' s₂) : D.Run s (w ++ w') (out ++ out') s₂ := by
  induction h with
  | nil => exact h'
  | cons hu _ ih => simpa using Run.cons hu (ih h')

theorem state_unique {s s₁ s₂ : σ} {w : List β} {out out' : List ω} (h : D.Run s w out s₁)
    (h' : D.Run s w out' s₂) : out = out' ∧ s₁ = s₂ := by
  induction h generalizing out' s₂ with
  | nil s =>
      generalize hw : ([] : List β) = w at h'
      cases h' with
      | nil => exact ⟨rfl, rfl⟩
      | cons hu _ =>
          have hpos := D.take_pos hu
          have := congrArg List.length hw
          simp only [List.length_nil, List.length_append] at this
          omega
  | @cons s t₁ t₂ u w o o' hu hr ih =>
      generalize hw : u ++ w = v at h'
      cases h' with
      | nil =>
          have hpos := D.take_pos hu
          have := congrArg List.length hw
          simp only [List.length_nil, List.length_append] at this
          omega
      | @cons _ r₁ _ u' w' p p' hu' hr' =>
          have e₁ := D.take_append hu w
          have e₂ := D.take_append hu' w'
          rw [hw, e₂] at e₁
          simp only [Outcome.take.injEq] at e₁
          obtain ⟨hlen, rfl, rfl⟩ := e₁
          obtain ⟨rfl, rfl⟩ := List.append_inj hw hlen.symm
          obtain ⟨rfl, rfl⟩ := ih hr'
          exact ⟨rfl, rfl⟩

/-- What every unit preserves holds after any number of units.  The unit is given together with
the input that follows it. -/
theorem invariant {I : σ → Prop} {P : σ → List β → Prop}
    (hstep : ∀ {s s' : σ} {u rest : List β} {out : List ω},
      D.step s u = .take u.length s' out → P s (u ++ rest) → I s → I s')
    {s s' : σ} {w : List β} {out : List ω} (h : D.Run s w out s') :
    ∀ rest, (∀ v v' o t, w ++ rest = v ++ v' → D.Run s v o t → P t v') → I s → I s' := by
  induction h with
  | nil => intro _ _ hI; exact hI
  | @cons s s₁ s₂ u w o o' hu _ ih =>
      intro rest hP hI
      have hhere : P s (u ++ (w ++ rest)) := by
        simpa using hP [] (u ++ (w ++ rest)) [] s (by simp) (Run.nil s)
      refine ih rest ?_ (hstep hu hhere hI)
      intro v v' p t hv hr
      exact hP (u ++ v) v' (o ++ p) t (by simp [hv]) (Run.cons hu hr)

end Run

/-! ### Taking units until the decoder waits -/

/-- Where a decoder stops: the state before the attempt that waits, the input that attempt was
made on, and what has been yielded. -/
structure Drained (σ β ω : Type*) where
  stop : σ
  rest : List β
  out : List ω

/-- Taking units until the decoder waits. -/
def drain (s : σ) (xs : List β) : Drained σ β ω :=
  match _hstep : D.step s xs with
  | .wait _ => ⟨s, xs, []⟩
  | .take n s' out =>
      let r := drain s' (xs.drop n)
      { r with out := out ++ r.out }
  termination_by xs.length
  decreasing_by
    have hpos := D.take_pos _hstep
    have hle := D.take_le _hstep
    simp only [List.length_drop]
    omega

theorem drain_wait {s s' : σ} {xs : List β} (h : D.step s xs = .wait s') :
    D.drain s xs = ⟨s, xs, []⟩ := by
  rw [drain]
  split
  · rfl
  · rename_i hn
    rw [h] at hn
    cases hn

theorem drain_take {s s' : σ} {xs : List β} {n : ℕ} {out : List ω}
    (h : D.step s xs = .take n s' out) :
    D.drain s xs = { D.drain s' (xs.drop n) with out := out ++ (D.drain s' (xs.drop n)).out } := by
  rw [drain]
  split
  · rename_i hn
    rw [h] at hn
    cases hn
  · rename_i hn
    rw [h] at hn
    cases hn
    rfl

theorem Run.drain {D : Decoder σ β ω} {s s' : σ} {w : List β} {out : List ω}
    (h : D.Run s w out s') (ys : List β) :
    D.drain s (w ++ ys) = { D.drain s' ys with out := out ++ (D.drain s' ys).out } := by
  induction h with
  | nil => rfl
  | @cons s s₁ s₂ u w o o' hu _ ih =>
      have hstep := D.take_append hu (w ++ ys)
      rw [List.append_assoc, D.drain_take hstep, List.drop_left, ih]
      simp

/-- **What is taken and what is left make up the input**, and the decoder waits on what is
left. -/
theorem drain_spec (s : σ) (xs : List β) :
    ∃ w, xs = w ++ (D.drain s xs).rest ∧ D.Run s w (D.drain s xs).out (D.drain s xs).stop ∧
      D.step (D.drain s xs).stop (D.drain s xs).rest
        = .wait (D.settle (D.drain s xs).stop (D.drain s xs).rest) := by
  induction hn : xs.length using Nat.strong_induction_on generalizing s xs with
  | _ n ih =>
      cases h : D.step s xs with
      | wait s' =>
          rw [D.drain_wait h]
          exact ⟨[], rfl, Run.nil s, by rw [h, D.settle_eq h]⟩
      | take k s' out =>
          have hpos := D.take_pos h
          have hle := D.take_le h
          obtain ⟨w, hw, hrun, hwait⟩ :=
            ih (xs.drop k).length (by simp only [List.length_drop]; omega) s' (xs.drop k) rfl
          have hunit : D.step s (xs.take k) = .take (xs.take k).length s' out := by
            rw [List.length_take_of_le hle]
            simpa using D.take_local h []
          rw [D.drain_take h]
          refine ⟨xs.take k ++ w, ?_, Run.cons hunit hrun, hwait⟩
          rw [List.append_assoc, ← hw, List.take_append_drop]

/-! ### Reads -/

/-- A read: the decoder, with what it has buffered, is given more input. -/
def feed (c : σ × List β) (xs : List β) : (σ × List β) × List ω :=
  let r := D.drain c.1 (c.2 ++ xs)
  ((D.settle r.stop r.rest, r.rest), r.out)

theorem feed_wait {s s' : σ} {b xs : List β} (h : D.step s (b ++ xs) = .wait s') :
    D.feed (s, b) xs = ((s', b ++ xs), []) := by
  simp only [feed, D.drain_wait h, D.settle_eq h]

/-- A list of reads. -/
def feedAll (c : σ × List β) : List (List β) → (σ × List β) × List ω
  | [] => (c, [])
  | xs :: reads =>
      let r := feedAll (D.feed c xs).1 reads
      (r.1, (D.feed c xs).2 ++ r.2)

@[simp] theorem feedAll_nil (c : σ × List β) : D.feedAll c [] = (c, []) := rfl

theorem feedAll_cons (c : σ × List β) (xs : List β) (reads : List (List β)) :
    D.feedAll c (xs :: reads) =
      ((D.feedAll (D.feed c xs).1 reads).1, (D.feed c xs).2 ++ (D.feedAll (D.feed c xs).1 reads).2) :=
  rfl

theorem feedAll_append (c : σ × List β) (r₁ r₂ : List (List β)) :
    D.feedAll c (r₁ ++ r₂) =
      ((D.feedAll (D.feedAll c r₁).1 r₂).1,
        (D.feedAll c r₁).2 ++ (D.feedAll (D.feedAll c r₁).1 r₂).2) := by
  induction r₁ generalizing c with
  | nil => rfl
  | cons xs r₁ ih => simp only [List.cons_append, feedAll_cons, ih, List.append_assoc]

theorem Run.feed {D : Decoder σ β ω} {s s' : σ} {w : List β} {out : List ω}
    (h : D.Run s w out s') (b xs ys : List β) (hb : b ++ xs = w ++ ys) :
    D.feed (s, b) xs = ((D.feed (s', []) ys).1, out ++ (D.feed (s', []) ys).2) := by
  simp only [Decoder.feed, hb, h.drain, List.nil_append]

theorem Run.feed_whole {D : Decoder σ β ω} {s s' t : σ} {w : List β} {out : List ω}
    (h : D.Run s w out s') (hwait : D.step s' [] = .wait t) :
    D.feed (s, []) w = ((t, []), out) := by
  rw [h.feed [] w [] (by simp), D.feed_wait hwait, List.append_nil, List.append_nil]

theorem Run.of_feed {D : Decoder σ β ω} {s : σ} {xs : List β} (h : (D.feed (s, []) xs).1.2 = []) :
    ∃ s', D.Run s xs (D.feed (s, []) xs).2 s' := by
  obtain ⟨w, hw, hrun, -⟩ := D.drain_spec s xs
  simp only [Decoder.feed, List.nil_append] at h ⊢
  rw [h, List.append_nil] at hw
  rw [← hw] at hrun
  exact ⟨_, hrun⟩

theorem feed_congr {s t : σ} {b xs : List β} (h : D.step s (b ++ xs) = D.step t (b ++ xs)) :
    D.feed (s, b) xs = D.feed (t, b) xs := by
  cases hs : D.step s (b ++ xs) with
  | wait s' =>
      have ht := h.symm.trans hs
      simp only [feed, D.drain_wait hs, D.drain_wait ht, D.settle_eq hs, D.settle_eq ht]
  | take n s' out =>
      have ht := h.symm.trans hs
      simp only [feed, D.drain_take hs, D.drain_take ht]

/-- An attempt is quiet if the state it leaves behind answers every longer input as the state
before it does. -/
def Quiet (s : σ) (xs : List β) : Prop :=
  ∀ ys, D.step (D.settle s xs) (xs ++ ys) = D.step s (xs ++ ys)

/-- A read ends quietly if the attempt that ends it is quiet. -/
def QuietEnd (c : σ × List β) (xs : List β) : Prop :=
  D.Quiet (D.drain c.1 (c.2 ++ xs)).stop (D.drain c.1 (c.2 ++ xs)).rest

/-- **Two reads are one read of both**, if the first ends quietly. -/
theorem feed_append {c : σ × List β} {xs : List β} (h : D.QuietEnd c xs) (ys : List β) :
    D.feed c (xs ++ ys) =
      ((D.feed (D.feed c xs).1 ys).1, (D.feed c xs).2 ++ (D.feed (D.feed c xs).1 ys).2) := by
  obtain ⟨w, hw, hrun, -⟩ := D.drain_spec c.1 (c.2 ++ xs)
  have hsplit : c.2 ++ (xs ++ ys) = w ++ ((D.drain c.1 (c.2 ++ xs)).rest ++ ys) := by
    rw [← List.append_assoc, hw, List.append_assoc, ← hw]
  have hretry : D.feed ((D.drain c.1 (c.2 ++ xs)).stop, []) ((D.drain c.1 (c.2 ++ xs)).rest ++ ys)
      = D.feed (D.feed c xs).1 ys := by
    have := D.feed_congr (h ys)
    simpa [feed] using this.symm
  rw [← hretry]
  exact hrun.feed c.2 (xs ++ ys) _ hsplit

/-- **A list of reads is one read of all of them**, if whatever has been read before each of them
ends quietly. -/
theorem feedAll_flatten {c : σ × List β} (hc : D.feed c [] = (c, [])) {reads : List (List β)}
    (h : ∀ r₁ r₂, reads = r₁ ++ r₂ → r₂ ≠ [] → D.QuietEnd c r₁.flatten) :
    D.feedAll c reads = D.feed c reads.flatten := by
  induction reads using List.reverseRecOn with
  | nil => exact hc.symm
  | append_singleton reads xs ih =>
      have hbefore : D.feedAll c reads = D.feed c reads.flatten := by
        refine ih fun r₁ r₂ hr hne => h r₁ (r₂ ++ [xs]) ?_ (by simp)
        rw [hr, List.append_assoc]
      have hquiet := h reads [xs] rfl (by simp)
      rw [feedAll_append, hbefore, List.flatten_append, List.flatten_singleton,
        D.feed_append hquiet, feedAll_cons, feedAll_nil, List.append_nil]

end Decoder

end Incremental
