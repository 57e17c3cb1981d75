/-
**Noninterference.**

An observer of a machine tells some states apart and notices some of the inputs and some of the
outputs.  What it does not notice must not make a difference to it: two runs that start in states it
does not tell apart, with inputs that look alike to it, look alike to it from the beginning to the end.
The inputs it does not notice may come anywhere, and in any number, in either run.

That this holds of runs is a matter of single steps: a step on an input that is not noticed leaves the
state as it was to the observer, and shows nothing; steps on inputs that look alike lead from states
that look alike to such states, and show the same.

Main definitions:

* `Machine.Observer` — what is told apart, and what is noticed;
* `Machine.Observer.Unwinds` — the conditions on single steps.

Main results:

* `Machine.Observer.Unwinds.unnoticed` — a run that is not noticed changes nothing;
* `Machine.Observer.Unwinds.runs_alike` — **runs on inputs that look alike look alike**.
-/

import RtmpTranscoder.Machine

set_option relaxedAutoImplicit false
set_option autoImplicit false

namespace Machine

/-- An observer of a machine: the states it does not tell apart, the inputs it notices, those of them
it does not tell apart, and what it sees of an output. -/
structure Observer (σ ι ω α : Type*) where
  same : σ → σ → Prop
  notices : ι → Bool
  alike : ι → ι → Prop
  sees : ω → Option α

namespace Observer

variable {σ ι ω α ε : Type*} {O : Observer σ ι ω α} {f : σ → ι → Except ε (σ × List ω)}
variable {s s' t t' : σ} {trace trace' : List (Moment σ ι ω)}

/-- What an observer sees of a run. -/
def seen (O : Observer σ ι ω α) (trace : List (Moment σ ι ω)) : List α :=
  (outputs trace).filterMap O.sees

/-- The inputs of a run that an observer notices. -/
def noticed (O : Observer σ ι ω α) (trace : List (Moment σ ι ω)) : List ι :=
  (inputs trace).filter O.notices

/-- The conditions on the steps of a machine under which nothing that is not noticed makes a
difference. -/
structure Unwinds (O : Observer σ ι ω α) (f : σ → ι → Except ε (σ × List ω)) : Prop where
  symm : ∀ {s t}, O.same s t → O.same t s
  unnoticed_step : ∀ {s s' t i out}, O.same s t → O.notices i = false → f s i = .ok (s', out) →
    O.same s' t ∧ out.filterMap O.sees = []
  noticed_step : ∀ {s s' t t' i j out out'}, O.same s t → O.alike i j →
    f s i = .ok (s', out) → f t j = .ok (t', out') →
    O.same s' t' ∧ out.filterMap O.sees = out'.filterMap O.sees

theorem seen_cons (m : Moment σ ι ω) (trace : List (Moment σ ι ω)) :
    O.seen (m :: trace) = m.outputs.filterMap O.sees ++ O.seen trace := by
  rw [seen, outputs, List.flatMap_cons, List.filterMap_append]
  rfl

theorem seen_append (trace trace' : List (Moment σ ι ω)) :
    O.seen (trace ++ trace') = O.seen trace ++ O.seen trace' := by
  rw [seen, outputs_append, List.filterMap_append]
  rfl

/-- **A run that is not noticed changes nothing**, and nothing is seen of it. -/
theorem Unwinds.unnoticed (h : O.Unwinds f) (hrun : Run (ofFun f) s trace s')
    (hinputs : ∀ m ∈ trace, O.notices m.input = false) (hsame : O.same s t) :
    O.same s' t ∧ O.seen trace = [] := by
  induction trace generalizing s with
  | nil =>
      rw [hrun.eq_of_nil]
      exact ⟨hsame, rfl⟩
  | cons m trace ih =>
      obtain ⟨rfl, s₁, hfirst, hrest⟩ := hrun.of_cons
      obtain ⟨hnext, hquiet⟩ := h.unnoticed_step hsame (hinputs m List.mem_cons_self) hfirst
      obtain ⟨hlast, hseen⟩ := ih hrest (fun m' hm' => hinputs m' (List.mem_cons_of_mem _ hm')) hnext
      exact ⟨hlast, by rw [seen_cons, hquiet, hseen, List.nil_append]⟩

/-- The first input of a run that is noticed, and what comes before and behind it. -/
theorem exists_first {i : ι} {is : List ι} (h : O.noticed trace = i :: is) :
    ∃ before m after, trace = before ++ m :: after ∧ (∀ m ∈ before, O.notices m.input = false) ∧
      m.input = i ∧ O.noticed after = is := by
  obtain ⟨front, rest, hsplit, hfront, -, hrest⟩ := List.filter_eq_cons_iff.1 h
  obtain ⟨before, more, rfl, rfl, hmore⟩ := List.map_eq_append_iff.1 hsplit
  obtain ⟨m, after, rfl, rfl, rfl⟩ := List.map_eq_cons_iff.1 hmore
  refine ⟨before, m, after, rfl, fun m' hm' => ?_, rfl, hrest⟩
  simpa using hfront m'.input (List.mem_map_of_mem hm')

/-- **Runs on inputs that look alike look alike**: the observer does not tell apart where they end, and
sees the same of both. -/
theorem Unwinds.runs_alike (h : O.Unwinds f) (hrun : Run (ofFun f) s trace s')
    (hrun' : Run (ofFun f) t trace' t') (hsame : O.same s t)
    (hinputs : List.Forall₂ O.alike (O.noticed trace) (O.noticed trace')) :
    O.same s' t' ∧ O.seen trace = O.seen trace' := by
  induction trace generalizing s t trace' with
  | nil =>
      rw [hrun.eq_of_nil]
      have hnone : O.noticed trace' = [] := List.forall₂_nil_left_iff.1 hinputs
      have hunnoticed : ∀ m ∈ trace', O.notices m.input = false := fun m hm => by
        simpa using List.filter_eq_nil_iff.1 hnone m.input (List.mem_map_of_mem hm)
      obtain ⟨hlast, hseen⟩ := h.unnoticed hrun' hunnoticed (h.symm hsame)
      exact ⟨h.symm hlast, hseen.symm⟩
  | cons m trace ih =>
      obtain ⟨rfl, s₁, hfirst, hrest⟩ := hrun.of_cons
      cases hnotices : O.notices m.input with
      | false =>
          obtain ⟨hnext, hquiet⟩ := h.unnoticed_step hsame hnotices hfirst
          have hskip : O.noticed (m :: trace) = O.noticed trace := by
            rw [noticed, inputs, List.map_cons, List.filter_cons_of_neg (by simpa using hnotices)]
            rfl
          rw [hskip] at hinputs
          obtain ⟨hlast, hseen⟩ := ih hrest hrun' hnext hinputs
          exact ⟨hlast, by rw [seen_cons, hquiet, List.nil_append, hseen]⟩
      | true =>
          have hstep : O.noticed (m :: trace) = m.input :: O.noticed trace := by
            rw [noticed, inputs, List.map_cons, List.filter_cons_of_pos hnotices]
            rfl
          rw [hstep] at hinputs
          obtain ⟨j, js, halike, hmore, htrace'⟩ := List.forall₂_cons_left_iff.1 hinputs
          obtain ⟨before, m', after, rfl, hbefore, rfl, rfl⟩ := exists_first htrace'
          -- the second run comes to the input that looks alike
          obtain ⟨hrunBefore, t₁, hfirst', hrunAfter⟩ := hrun'.split
          obtain ⟨hmeanwhile, hquiet⟩ := h.unnoticed hrunBefore hbefore (h.symm hsame)
          obtain ⟨hnext, hshown⟩ := h.noticed_step (h.symm hmeanwhile) halike hfirst hfirst'
          obtain ⟨hlast, hseen⟩ := ih hrest hrunAfter hnext hmore
          refine ⟨hlast, ?_⟩
          rw [seen_cons, seen_append, seen_cons, hquiet, List.nil_append, hshown, hseen]

end Observer

end Machine
