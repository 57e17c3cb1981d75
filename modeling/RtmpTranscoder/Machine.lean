/-
**Machines and their runs.**

A machine is in a state, reads an input, produces outputs and is in another state.  What is claimed
of one is rarely about a single step: it is about every run, and often about the order in which
things happen in it.  This module develops both in general: nothing here mentions a particular
machine.

A run is listed with the state before every step, so that a statement about a run can speak of what
a step found, and not only of what it was given and what it produced.

Order is expressed by three kinds of events.  Some open a permission, some close it, and some use
it: a log is *guarded* if every use comes while the permission is in force.

Main definitions:

* `Machine.Step`, `Machine.Moment`, `Machine.Run` — steps, and runs of them;
* `Machine.Does` — what some run produces;
* `Machine.ofFun`, `Machine.replay` — the machine of a function that may fail, and its run on given
  inputs;
* `Machine.Obeys` — logs in which every event is allowed by what comes before it;
* `Machine.InForce`, `Machine.Guarded` — what has been opened and not closed since, and logs whose
  uses come in between.

Main results:

* `Machine.Run.invariant` — **what every step preserves holds at the end of every run**;
* `Machine.Run.split` — a run passes through each of its moments;
* `Machine.Run.refine` — **what a machine produces, a finer one produces too**;
* `Machine.refines_foldl_iff` — **a function refines another along a run exactly if no step breaks
  the relation**;
* `Machine.exists_run` — a function that does not fail where an invariant holds can be run on any
  inputs;
* `Machine.exists_run_iff` — **a function can be run on a list of inputs exactly if it fails on none of
  them**;
* `Machine.guarded_snoc`, `Machine.guarded_append` — a log is guarded event by event, and part by
  part;
* `Machine.Guarded.append_of_inForce` — while the permission is in force, it can be used;
* `Machine.guarded_outputs` — **a log is guarded step by step**, if steps do one thing at a time.
-/

import Mathlib

set_option relaxedAutoImplicit false
set_option autoImplicit false

namespace Machine

variable {σ ι ω ε : Type*}

/-! ### Runs -/

/-- `step s i out s'`: in the state `s`, the input `i` may produce `out` and lead to `s'`. -/
abbrev Step (σ ι ω : Type*) := σ → ι → List ω → σ → Prop

/-- A step of a run: the state it finds, its input, and what it produces. -/
structure Moment (σ ι ω : Type*) where
  state : σ
  input : ι
  outputs : List ω

/-- `Run step s₀ trace s`: the steps `trace` lead from `s₀` to `s`. -/
inductive Run (step : Step σ ι ω) (s₀ : σ) : List (Moment σ ι ω) → σ → Prop
  | nil : Run step s₀ [] s₀
  | snoc {trace : List (Moment σ ι ω)} {s s' : σ} {i : ι} {out : List ω} :
      Run step s₀ trace s → step s i out s' → Run step s₀ (trace ++ [⟨s, i, out⟩]) s'

def outputs (trace : List (Moment σ ι ω)) : List ω := trace.flatMap Moment.outputs

@[simp] theorem outputs_nil : outputs ([] : List (Moment σ ι ω)) = [] := rfl

@[simp] theorem outputs_snoc (trace : List (Moment σ ι ω)) (m : Moment σ ι ω) :
    outputs (trace ++ [m]) = outputs trace ++ m.outputs := by
  simp [outputs]

@[simp] theorem outputs_append (t₁ t₂ : List (Moment σ ι ω)) :
    outputs (t₁ ++ t₂) = outputs t₁ ++ outputs t₂ := List.flatMap_append ..

def inputs (trace : List (Moment σ ι ω)) : List ι := trace.map Moment.input

@[simp] theorem inputs_nil : inputs ([] : List (Moment σ ι ω)) = [] := rfl

@[simp] theorem inputs_snoc (trace : List (Moment σ ι ω)) (m : Moment σ ι ω) :
    inputs (trace ++ [m]) = inputs trace ++ [m.input] := by
  simp [inputs]

namespace Run

variable {step : Step σ ι ω} {s₀ s₁ s : σ} {trace trace' : List (Moment σ ι ω)}

/-- **What every step preserves holds at the end of every run.**  The invariant may speak of the run
so far, and the steps may be limited to those that satisfy `P`. -/
theorem invariant {I : List (Moment σ ι ω) → σ → Prop} {P : Moment σ ι ω → Prop}
    (h : Run step s₀ trace s) (hP : ∀ m ∈ trace, P m) (h₀ : I [] s₀)
    (hstep : ∀ {trace s i out s'}, Run step s₀ trace s → I trace s → P ⟨s, i, out⟩ →
      step s i out s' → I (trace ++ [⟨s, i, out⟩]) s') : I trace s := by
  induction h with
  | nil => exact h₀
  | snoc hrun hs ih =>
      refine hstep hrun (ih fun m hm => hP m (List.mem_append_left _ hm)) ?_ hs
      exact hP _ (List.mem_append_right _ (List.mem_singleton_self _))

theorem append (h : Run step s₀ trace s₁) (h' : Run step s₁ trace' s) :
    Run step s₀ (trace ++ trace') s := by
  induction h' with
  | nil => rwa [List.append_nil]
  | snoc _ hs ih =>
      rw [← List.append_assoc]
      exact .snoc ih hs

theorem cons {i : ι} {out : List ω} (hs : step s₀ i out s₁) (h : Run step s₁ trace s) :
    Run step s₀ (⟨s₀, i, out⟩ :: trace) s :=
  append (.snoc .nil hs) h

theorem eq_of_nil (h : Run step s₀ [] s) : s = s₀ := by
  generalize htrace : ([] : List (Moment σ ι ω)) = t at h
  cases h with
  | nil => rfl
  | snoc => simp at htrace

theorem of_cons {m : Moment σ ι ω} (h : Run step s₀ (m :: trace) s) :
    m.state = s₀ ∧ ∃ s₁, step s₀ m.input m.outputs s₁ ∧ Run step s₁ trace s := by
  generalize htrace : m :: trace = t at h
  induction h generalizing trace with
  | nil => cases htrace
  | @snoc t s s' i out hrun hs ih =>
      cases t with
      | nil =>
          obtain rfl := eq_of_nil hrun
          obtain ⟨rfl, rfl⟩ := List.cons.inj htrace
          exact ⟨rfl, s', hs, .nil⟩
      | cons m' t =>
          rw [List.cons_append] at htrace
          obtain ⟨rfl, rfl⟩ := List.cons.inj htrace
          obtain ⟨hstate, s₁, hfirst, hrest⟩ := ih rfl
          exact ⟨hstate, s₁, hfirst, .snoc hrest hs⟩

theorem of_append (h : Run step s₀ (trace ++ trace') s) :
    ∃ s₁, Run step s₀ trace s₁ ∧ Run step s₁ trace' s := by
  induction trace generalizing s₀ with
  | nil => exact ⟨s₀, .nil, h⟩
  | cons m trace ih =>
      obtain ⟨hstate, s₁, hs, hrest⟩ := of_cons h
      obtain ⟨s₂, h₁, h₂⟩ := ih hrest
      obtain ⟨t, i, out⟩ := m
      subst hstate
      exact ⟨s₂, .cons hs h₁, h₂⟩

/-- **A run passes through each of its moments.** -/
theorem split {m : Moment σ ι ω} (h : Run step s₀ (trace ++ m :: trace') s) :
    Run step s₀ trace m.state ∧ ∃ s₁, step m.state m.input m.outputs s₁ ∧ Run step s₁ trace' s := by
  obtain ⟨s₁, h₁, h₂⟩ := of_append h
  obtain ⟨hstate, s₂, hs, hrest⟩ := of_cons h₂
  subst hstate
  exact ⟨h₁, s₂, hs, hrest⟩

theorem step_of_mem {m : Moment σ ι ω} (h : Run step s₀ trace s) (hm : m ∈ trace) :
    ∃ s₁, step m.state m.input m.outputs s₁ := by
  obtain ⟨before, after, rfl⟩ := List.append_of_mem hm
  obtain ⟨-, s₁, hstep, -⟩ := h.split
  exact ⟨s₁, hstep⟩

end Run

/-! ### Finer machines -/

/-- Some run leads from `s` to `s'` and produces `out`. -/
def Does (step : Step σ ι ω) (s : σ) (out : List ω) (s' : σ) : Prop :=
  ∃ trace, Run step s trace s' ∧ outputs trace = out

namespace Does

variable {step : Step σ ι ω} {s s₁ s₂ : σ} {out out₁ out₂ : List ω}

theorem nil : Does step s [] s := ⟨[], .nil, rfl⟩

theorem of_step {i : ι} (h : step s i out s₁) : Does step s out s₁ :=
  ⟨[⟨s, i, out⟩], .snoc .nil h, List.append_nil out⟩

theorem trans (h₁ : Does step s out₁ s₁) (h₂ : Does step s₁ out₂ s₂) :
    Does step s (out₁ ++ out₂) s₂ := by
  obtain ⟨t₁, hrun₁, rfl⟩ := h₁
  obtain ⟨t₂, hrun₂, rfl⟩ := h₂
  exact ⟨t₁ ++ t₂, hrun₁.append hrun₂, outputs_append t₁ t₂⟩

end Does

/-- **A machine each of whose steps is a run of a finer one is refined by it**: what its runs produce,
runs of the finer one produce too. -/
theorem Run.refine {κ : Type*} {step : Step σ ι ω} {fine : Step σ κ ω} {s₀ s : σ}
    {trace : List (Moment σ ι ω)} (hrun : Run step s₀ trace s)
    (hstep : ∀ {s i out s'}, step s i out s' → Does fine s out s') :
    Does fine s₀ (outputs trace) s := by
  induction hrun with
  | nil => exact Does.nil
  | snoc _ hs ih =>
      rw [outputs_snoc]
      exact ih.trans (hstep hs)

/-! ### Two functions side by side -/

/-- **A function refines another along a run exactly if no step breaks the relation**: if the condition
`C` says of every step from related states whether the states behind it are related, then all states
of a run are related exactly if all its steps meet `C`. -/
theorem refines_foldl_iff {τ : Type*} {f : σ → ι → σ} {g : τ → ι → τ} {R : σ → τ → Prop}
    {C : σ → ι → Prop} (hstep : ∀ {s t i}, R s t → (R (f s i) (g t i) ↔ C s i)) {s : σ} {t : τ}
    (h : R s t) (is : List ι) :
    (∀ before, before <+: is → R (before.foldl f s) (before.foldl g t)) ↔
      ∀ before i, before ++ [i] <+: is → C (before.foldl f s) i := by
  constructor
  · intro hrel before i hpre
    have hbehind := hrel _ hpre
    rw [List.foldl_append, List.foldl_append] at hbehind
    exact (hstep (hrel before ((List.prefix_append before [i]).trans hpre))).1 hbehind
  · intro hmeets before
    induction before using List.reverseRecOn with
    | nil => exact fun _ => h
    | append_singleton before i ih =>
        intro hpre
        rw [List.foldl_append, List.foldl_append]
        have hrel := ih ((List.prefix_append before [i]).trans hpre)
        exact (hstep hrel).2 (hmeets before i hpre)

/-! ### Functions as machines -/

/-- The machine of a function that may fail: where it fails there is no step. -/
def ofFun (f : σ → ι → Except ε (σ × List ω)) : Step σ ι ω := fun s i out s' => f s i = .ok (s', out)

/-- A function that does not fail where an invariant holds, and keeps it, can be run on any inputs
it accepts. -/
theorem exists_run {f : σ → ι → Except ε (σ × List ω)} {I : σ → Prop} {P : ι → Prop}
    (hstep : ∀ {s i}, I s → P i → ∃ s' out, f s i = .ok (s', out) ∧ I s') {is : List ι}
    (hP : ∀ i ∈ is, P i) {s : σ} (hs : I s) :
    ∃ trace s', Run (ofFun f) s trace s' ∧ inputs trace = is ∧ I s' := by
  induction is generalizing s with
  | nil => exact ⟨[], s, .nil, rfl, hs⟩
  | cons i is ih =>
      obtain ⟨s₁, out, hf, h₁⟩ := hstep hs (hP i List.mem_cons_self)
      obtain ⟨trace, s₂, hrun, his, h₂⟩ := ih (fun j hj => hP j (List.mem_cons_of_mem _ hj)) h₁
      exact ⟨⟨s, i, out⟩ :: trace, s₂, .cons hf hrun, by rw [← his]; rfl, h₂⟩

/-- The run of a function on given inputs. -/
def replay (f : σ → ι → Except ε (σ × List ω)) (s : σ) :
    List ι → Except ε (σ × List (Moment σ ι ω))
  | [] => .ok (s, [])
  | i :: is =>
      match f s i with
      | .error e => .error e
      | .ok (s', out) => (replay f s' is).map fun r => (r.1, ⟨s, i, out⟩ :: r.2)

theorem run_of_replay {f : σ → ι → Except ε (σ × List ω)} {s s' : σ} {is : List ι}
    {trace : List (Moment σ ι ω)} (h : replay f s is = .ok (s', trace)) :
    Run (ofFun f) s trace s' := by
  induction is generalizing s trace with
  | nil =>
      obtain ⟨rfl, rfl⟩ := Prod.mk.inj (Except.ok.inj h)
      exact .nil
  | cons i is ih =>
      rw [replay] at h
      cases hfirst : f s i with
      | error e =>
          rw [hfirst] at h
          cases h
      | ok first =>
          obtain ⟨s₁, out₁⟩ := first
          rw [hfirst] at h
          simp only at h
          cases hrest : replay f s₁ is with
          | error e =>
              rw [hrest] at h
              cases h
          | ok rest =>
              rw [hrest] at h
              obtain ⟨rfl, rfl⟩ := Prod.mk.inj (Except.ok.inj h)
              exact .cons hfirst (ih hrest)

/-- A run is replayed on its inputs. -/
theorem replay_of_run {f : σ → ι → Except ε (σ × List ω)} {s s' : σ} {trace : List (Moment σ ι ω)}
    (h : Run (ofFun f) s trace s') : replay f s (inputs trace) = .ok (s', trace) := by
  induction trace generalizing s with
  | nil =>
      rw [h.eq_of_nil]
      rfl
  | cons m trace ih =>
      obtain ⟨rfl, s₁, hfirst, hrest⟩ := h.of_cons
      have hcall : f m.state m.input = .ok (s₁, m.outputs) := hfirst
      change replay f m.state (m.input :: inputs trace) = _
      rw [replay, hcall]
      simp only [ih hrest]
      rfl

theorem inputs_of_replay {f : σ → ι → Except ε (σ × List ω)} {s s' : σ} {is : List ι}
    {trace : List (Moment σ ι ω)} (h : replay f s is = .ok (s', trace)) : inputs trace = is := by
  induction is generalizing s s' trace with
  | nil =>
      obtain ⟨-, rfl⟩ := Prod.mk.inj (Except.ok.inj h)
      rfl
  | cons i is ih =>
      rw [replay] at h
      cases hfirst : f s i with
      | error e =>
          rw [hfirst] at h
          cases h
      | ok first =>
          rw [hfirst] at h
          simp only at h
          cases hrest : replay f first.1 is with
          | error e =>
              rw [hrest] at h
              cases h
          | ok rest =>
              obtain ⟨s₂, more⟩ := rest
              rw [hrest] at h
              obtain ⟨-, rfl⟩ := Prod.mk.inj (Except.ok.inj h)
              exact congrArg (i :: ·) (ih hrest)

theorem run_unique {f : σ → ι → Except ε (σ × List ω)} {s s₁ s₂ : σ}
    {trace₁ trace₂ : List (Moment σ ι ω)} (h₁ : Run (ofFun f) s trace₁ s₁)
    (h₂ : Run (ofFun f) s trace₂ s₂) (hsame : inputs trace₁ = inputs trace₂) :
    s₁ = s₂ ∧ trace₁ = trace₂ := by
  have hreplay := replay_of_run h₁
  rw [hsame, replay_of_run h₂] at hreplay
  obtain ⟨rfl, rfl⟩ := Prod.mk.inj (Except.ok.inj hreplay)
  exact ⟨rfl, rfl⟩

/-- **A function can be run on a list of inputs exactly if it fails on none of them**, in the state that
those before it lead to. -/
theorem exists_run_iff {f : σ → ι → Except ε (σ × List ω)} {s₀ : σ} {is : List ι} :
    (∃ trace s, Run (ofFun f) s₀ trace s ∧ inputs trace = is) ↔
      ∀ before i after, is = before ++ i :: after → ∀ trace s, Run (ofFun f) s₀ trace s →
        inputs trace = before → ∃ s' out, f s i = .ok (s', out) := by
  constructor
  · rintro ⟨trace, s, hrun, hinputs⟩ before i after rfl trace' s' hrun' hbefore
    -- the run on the inputs before this one is the beginning of the whole run
    obtain ⟨trace₁, rest, rfl, hfirst, hrest⟩ := List.map_eq_append_iff.1 hinputs
    obtain ⟨m, trace₂, rfl, rfl, -⟩ := List.map_eq_cons_iff.1 hrest
    obtain ⟨hrun₁, s₁, hstep, -⟩ := hrun.split
    obtain ⟨rfl, -⟩ := run_unique hrun' hrun₁ (hbefore.trans hfirst.symm)
    exact ⟨s₁, m.outputs, hstep⟩
  · intro hnever
    induction is using List.reverseRecOn with
    | nil => exact ⟨[], s₀, .nil, rfl⟩
    | append_singleton is i ih =>
        obtain ⟨trace, s, hrun, rfl⟩ := ih fun before j after hsplit =>
          hnever before j (after ++ [i]) (by rw [hsplit, List.append_assoc, List.cons_append])
        obtain ⟨s', out, hstep⟩ := hnever _ i [] rfl trace s hrun rfl
        exact ⟨_, s', .snoc hrun hstep, inputs_snoc ..⟩

/-! ### Permissions -/

section Guards

variable {uses opens closes : ω → Prop}

/-- The permission has been opened, and not closed since. -/
def InForce (opens closes : ω → Prop) (log : List ω) : Prop :=
  ∃ before event after, log = before ++ event :: after ∧ opens event ∧ ∀ e ∈ after, ¬ closes e

/-- Every use comes while the permission is in force. -/
def Guarded (uses opens closes : ω → Prop) (log : List ω) : Prop :=
  ∀ before event after, log = before ++ event :: after → uses event → InForce opens closes before

/-- Every event is allowed by what comes before it. -/
def Obeys (rule : List ω → ω → Prop) (log : List ω) : Prop :=
  ∀ before event after, log = before ++ event :: after → rule before event

theorem obeys_nil {rule : List ω → ω → Prop} : Obeys rule [] := by
  intro before event after h
  simp at h

theorem Obeys.snoc {rule : List ω → ω → Prop} {log : List ω} {e : ω} (h : Obeys rule log)
    (he : rule log e) : Obeys rule (log ++ [e]) := by
  intro before event after hlog
  rcases List.eq_nil_or_concat after with rfl | ⟨after, last, rfl⟩
  · obtain ⟨rfl, hlast⟩ := List.append_inj' hlog rfl
    exact List.singleton_injective hlast ▸ he
  · rw [List.concat_eq_append, ← List.cons_append, ← List.append_assoc] at hlog
    obtain ⟨rfl, -⟩ := List.append_inj' hlog rfl
    exact h before event after rfl

/-- What is obeyed is obeyed up to the last event, and by it. -/
theorem Obeys.of_snoc {rule : List ω → ω → Prop} {log : List ω} {e : ω}
    (h : Obeys rule (log ++ [e])) : Obeys rule log ∧ rule log e := by
  constructor
  · intro before event after hlog
    exact h before event (after ++ [e]) (by rw [hlog, List.append_assoc, List.cons_append])
  · exact h log e [] rfl

theorem Obeys.append {rule : List ω → ω → Prop} {log more : List ω} (h : Obeys rule log)
    (hmore : ∀ e ∈ more, ∀ before, rule before e) : Obeys rule (log ++ more) := by
  induction more using List.reverseRecOn with
  | nil => rwa [List.append_nil]
  | append_singleton more e ih =>
      rw [← List.append_assoc]
      refine (ih fun e' he' => hmore e' (List.mem_append_left _ he')).snoc ?_
      exact hmore e (List.mem_append_right _ (List.mem_singleton_self _)) _

theorem not_inForce_nil : ¬ InForce opens closes [] := by
  rintro ⟨before, event, after, h, -⟩
  simp at h

theorem inForce_snoc {log : List ω} {e : ω} :
    InForce opens closes (log ++ [e]) ↔ opens e ∨ (InForce opens closes log ∧ ¬ closes e) := by
  constructor
  · rintro ⟨before, event, after, h, hopen, hafter⟩
    rcases List.eq_nil_or_concat after with rfl | ⟨after, last, rfl⟩
    · obtain ⟨-, hlast⟩ := List.append_inj' h rfl
      exact .inl (List.singleton_injective hlast ▸ hopen)
    · rw [List.concat_eq_append, ← List.cons_append, ← List.append_assoc] at h
      obtain ⟨rfl, hlast⟩ := List.append_inj' h rfl
      obtain rfl := List.singleton_injective hlast
      rw [List.concat_eq_append] at hafter
      exact .inr ⟨⟨before, event, after, rfl, hopen, fun e he => hafter e (by simp [he])⟩,
        hafter _ (by simp)⟩
  · rintro (hopen | ⟨⟨before, event, after, rfl, hopen, hafter⟩, hclose⟩)
    · exact ⟨log, e, [], rfl, hopen, by simp⟩
    · refine ⟨before, event, after ++ [e], by simp, hopen, fun e' he' => ?_⟩
      rcases List.mem_append.1 he' with he' | he'
      · exact hafter e' he'
      · rwa [List.mem_singleton.1 he']

/-- A permission that is in force stays so until something closes it. -/
theorem InForce.append {log more : List ω} (h : InForce opens closes log)
    (hclose : ∀ e ∈ more, ¬ closes e) : InForce opens closes (log ++ more) := by
  obtain ⟨before, event, after, rfl, hopen, hafter⟩ := h
  refine ⟨before, event, after ++ more, by simp, hopen, fun e he => ?_⟩
  exact (List.mem_append.1 he).elim (hafter e) (hclose e)

theorem guarded_nil : Guarded uses opens closes ([] : List ω) := by
  intro before event after h
  simp at h

/-- **A log is guarded part by part.** -/
theorem guarded_append {log more : List ω} :
    Guarded uses opens closes (log ++ more) ↔ Guarded uses opens closes log ∧
      ∀ before event after, more = before ++ event :: after → uses event →
        InForce opens closes (log ++ before) := by
  constructor
  · intro h
    refine ⟨fun before event after hlog huse => ?_, fun before event after hmore huse => ?_⟩
    · exact h before event (after ++ more) (by rw [hlog]; simp) huse
    · exact h (log ++ before) event after (by rw [hmore]; simp) huse
  · rintro ⟨hlog, hmore⟩ before event after h huse
    rcases List.append_eq_append_iff.1 h with ⟨rest, rfl, hrest⟩ | ⟨rest, rfl, hrest⟩
    · exact hmore rest event after hrest huse
    · cases rest with
      | nil => simpa using hmore [] event after hrest.symm huse
      | cons e rest =>
          obtain ⟨rfl, rfl⟩ := List.cons.inj hrest
          exact hlog before event rest rfl huse

theorem guarded_snoc {log : List ω} {e : ω} :
    Guarded uses opens closes (log ++ [e]) ↔
      Guarded uses opens closes log ∧ (uses e → InForce opens closes log) := by
  rw [guarded_append]
  refine and_congr_right fun _ => ⟨fun h => ?_, fun h before event after he huse => ?_⟩
  · simpa using h [] e [] rfl
  · obtain ⟨rfl, rfl, rfl⟩ : before = [] ∧ event = e ∧ after = [] := by
      cases before with
      | nil =>
          obtain ⟨rfl, rfl⟩ := List.cons.inj he
          exact ⟨rfl, rfl, rfl⟩
      | cons b before => simp at he
    simpa using h huse

theorem Guarded.append_of_not_uses {log more : List ω} (h : Guarded uses opens closes log)
    (hmore : ∀ e ∈ more, ¬ uses e) : Guarded uses opens closes (log ++ more) := by
  refine guarded_append.2 ⟨h, fun before event after hsplit huse => ?_⟩
  exact absurd huse (hmore event (by rw [hsplit]; simp))

theorem Guarded.append_of_inForce {log more : List ω} (h : Guarded uses opens closes log)
    (hforce : InForce opens closes log) (hclose : ∀ e ∈ more, ¬ closes e) :
    Guarded uses opens closes (log ++ more) := by
  refine guarded_append.2 ⟨h, fun before event after hsplit _ => ?_⟩
  exact hforce.append fun e he => hclose e (by rw [hsplit]; simp [he])

/-- Whether the permission is in force depends on what opens it only. -/
theorem InForce.congr {opens' : ω → Prop} {log : List ω} (h : InForce opens closes log)
    (ho : ∀ e ∈ log, opens e → opens' e) : InForce opens' closes log := by
  obtain ⟨before, event, after, rfl, hopen, hafter⟩ := h
  exact ⟨before, event, after, rfl, ho event (by simp) hopen, hafter⟩

theorem guarded_congr {opens' : ω → Prop} {log : List ω} (ho : ∀ e ∈ log, opens e ↔ opens' e) :
    Guarded uses opens closes log ↔ Guarded uses opens' closes log := by
  constructor
  · intro h before event after hlog huse
    refine (h before event after hlog huse).congr fun e he => (ho e ?_).1
    rw [hlog]
    exact List.mem_append_left _ he
  · intro h before event after hlog huse
    refine (h before event after hlog huse).congr fun e he => (ho e ?_).2
    rw [hlog]
    exact List.mem_append_left _ he

/-! ### Permissions, step by step -/

/-- A step produces an event of a kind. -/
def Moment.Emits (kind : ω → Prop) (m : Moment σ ι ω) : Prop := ∃ e ∈ m.outputs, kind e

/-- What opens a permission and does not close it leaves it in force. -/
theorem inForce_append_of_opens {log more : List ω} (hopens : ∃ e ∈ more, opens e)
    (hcloses : ∀ e ∈ more, ¬ closes e) : InForce opens closes (log ++ more) := by
  obtain ⟨e, he, hopen⟩ := hopens
  obtain ⟨before, after, rfl⟩ := List.append_of_mem he
  refine ⟨log ++ before, e, after, by simp, hopen, fun e' he' => hcloses e' ?_⟩
  simp [he']

/-- What does not open a permission keeps it in force, unless it closes it. -/
theorem inForce_append_of_not_opens {log more : List ω} (hopens : ∀ e ∈ more, ¬ opens e) :
    InForce opens closes (log ++ more) ↔ InForce opens closes log ∧ ∀ e ∈ more, ¬ closes e := by
  induction more using List.reverseRecOn with
  | nil => simp
  | append_singleton more e ih =>
      rw [← List.append_assoc, inForce_snoc, ih fun e' he' => hopens e' (List.mem_append_left _ he')]
      constructor
      · rintro (hopen | ⟨⟨hforce, hmore⟩, hclose⟩)
        · exact absurd hopen (hopens e (by simp))
        · refine ⟨hforce, fun e' he' => ?_⟩
          rcases List.mem_append.1 he' with he' | he'
          · exact hmore e' he'
          · rwa [List.mem_singleton.1 he']
      · rintro ⟨hforce, hmore⟩
        exact .inr ⟨⟨hforce, fun e' he' => hmore e' (List.mem_append_left _ he')⟩, hmore e (by simp)⟩

variable {trace : List (Moment σ ι ω)}

/-- If no step both opens and closes the permission, whether it is in force is decided step by step. -/
theorem inForce_outputs
    (hclose : ∀ m ∈ trace, m.Emits opens → ∀ e ∈ m.outputs, ¬ closes e) :
    InForce opens closes (outputs trace) ↔
      InForce (Moment.Emits opens) (Moment.Emits closes) trace := by
  induction trace using List.reverseRecOn with
  | nil => exact iff_of_false not_inForce_nil not_inForce_nil
  | append_singleton trace m ih =>
      have ih := ih fun m' hm' => hclose m' (List.mem_append_left _ hm')
      rw [outputs_snoc, inForce_snoc, ← ih]
      by_cases hopen : m.Emits opens
      · have hforce := @inForce_append_of_opens _ opens closes (outputs trace) _ hopen
          (hclose m (by simp) hopen)
        exact iff_of_true hforce (.inl hopen)
      · have hnot : ∀ e ∈ m.outputs, ¬ opens e := fun e he he' => hopen ⟨e, he, he'⟩
        rw [inForce_append_of_not_opens hnot]
        constructor
        · rintro ⟨hforce, hmore⟩
          exact .inr ⟨hforce, fun ⟨e, he, hclosed⟩ => hmore e he hclosed⟩
        · rintro (hemit | ⟨hforce, hmore⟩)
          · exact absurd hemit hopen
          · exact ⟨hforce, fun e he hclosed => hmore ⟨e, he, hclosed⟩⟩

/-- **If a step that uses the permission leaves it alone, and no step both opens and closes it, a log is
guarded step by step.** -/
theorem guarded_outputs
    (hclose : ∀ m ∈ trace, m.Emits opens → ∀ e ∈ m.outputs, ¬ closes e)
    (huse : ∀ m ∈ trace, m.Emits uses → ∀ e ∈ m.outputs, ¬ opens e ∧ ¬ closes e) :
    Guarded uses opens closes (outputs trace) ↔
      Guarded (Moment.Emits uses) (Moment.Emits opens) (Moment.Emits closes) trace := by
  induction trace using List.reverseRecOn with
  | nil => exact iff_of_true guarded_nil guarded_nil
  | append_singleton trace m ih =>
      have hclose' := fun m' hm' => hclose m' (List.mem_append_left [m] hm')
      have ih := ih hclose' fun m' hm' => huse m' (List.mem_append_left _ hm')
      rw [outputs_snoc, guarded_append, guarded_snoc, ih, ← inForce_outputs hclose']
      refine and_congr_right fun _ => ⟨?_, ?_⟩
      · rintro h ⟨e, he, hused⟩
        obtain ⟨before, after, hsplit⟩ := List.append_of_mem he
        have hquiet := huse m (by simp) ⟨e, he, hused⟩
        have hforce := h before e after hsplit hused
        rw [inForce_append_of_not_opens fun e' he' => (hquiet e' (by simp [hsplit, he'])).1] at hforce
        exact hforce.1
      · intro h before e after hsplit hused
        have hemit : m.Emits uses := ⟨e, by simp [hsplit], hused⟩
        have hquiet := huse m (by simp) hemit
        rw [inForce_append_of_not_opens fun e' he' => (hquiet e' (by simp [hsplit, he'])).1]
        exact ⟨h hemit, fun e' he' => (hquiet e' (by simp [hsplit, he'])).2⟩

end Guards

end Machine
