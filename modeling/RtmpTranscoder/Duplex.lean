/-
**Two machines and the pipes between them.**

Two parties that talk over a connection do not see each other.  Each takes steps of its own, takes what
has come in out of one pipe, and puts what it has to say into the other one.  A pipe keeps what is in it,
in order, and a party may take as little of it at a time as it likes.

What can be said of such a pair follows from what can be said of each of the parties and from the pipes:
a run of the pair is a run of each of them, and what one of them has given is what the other one has
taken, with what is still on its way behind it.

Main definitions:

* `Duplex.Party` — a machine, with what its steps take and what they may give;
* `Duplex.State`, `Duplex.Step` — two parties and two pipes, as a machine;
* `Duplex.leftTrace`, `Duplex.rightTrace` — the steps of one of the parties;
* `Duplex.Gave` — what a run of a party may have given.

Main results:

* `Duplex.run_left`, `Duplex.run_right` — **a run of the pair is a run of each of the parties**;
* `Duplex.conserved_up`, `Duplex.conserved_down` — **nothing is lost on the way, and nothing is added**;
* `Duplex.taken_left_of_silent` — who hears nothing takes nothing.
-/

import RtmpTranscoder.Machine

set_option relaxedAutoImplicit false
set_option autoImplicit false

namespace Duplex

open Machine (Moment Run)

variable {α β ι κ ω ψ γ σ : Type*}

/-- A party: a machine, what its steps take out of a pipe, and what they may put into the other one. -/
structure Party (σ ι ω γ : Type*) where
  step : Machine.Step σ ι ω
  takes : σ → ι → List γ
  gives : Moment σ ι ω → List γ → Prop

/-- Two parties, and what is on its way from the left one to the right one, and back. -/
structure State (α β γ : Type*) where
  left : α
  right : β
  up : List γ
  down : List γ

/-- An input of one of the parties, and what its step gives. -/
inductive Input (ι κ γ : Type*) where
  | left (i : ι) (given : List γ)
  | right (k : κ) (given : List γ)

/-- One of the parties takes a step. -/
inductive Step (L : Party α ι ω γ) (R : Party β κ ψ γ) :
    Machine.Step (State α β γ) (Input ι κ γ) (ω ⊕ ψ)
  | left {a a' : α} {b : β} {i : ι} {out : List ω} {given up down : List γ} :
      L.step a i out a' → L.gives ⟨a, i, out⟩ given →
      Step L R ⟨a, b, up, L.takes a i ++ down⟩ (.left i given) (out.map .inl)
        ⟨a', b, up ++ given, down⟩
  | right {a : α} {b b' : β} {k : κ} {out : List ψ} {given up down : List γ} :
      R.step b k out b' → R.gives ⟨b, k, out⟩ given →
      Step L R ⟨a, b, R.takes b k ++ up, down⟩ (.right k given) (out.map .inr)
        ⟨a, b', up, down ++ given⟩

/-! ### The steps of a party -/

/-- A step of the pair, as one of the left party. -/
def leftMoment (m : Moment (State α β γ) (Input ι κ γ) (ω ⊕ ψ)) : Option (Moment α ι ω) :=
  match m.input with
  | .left i _ => some ⟨m.state.left, i, m.outputs.filterMap Sum.getLeft?⟩
  | .right _ _ => none

/-- A step of the pair, as one of the right party. -/
def rightMoment (m : Moment (State α β γ) (Input ι κ γ) (ω ⊕ ψ)) : Option (Moment β κ ψ) :=
  match m.input with
  | .left _ _ => none
  | .right k _ => some ⟨m.state.right, k, m.outputs.filterMap Sum.getRight?⟩

def leftTrace (trace : List (Moment (State α β γ) (Input ι κ γ) (ω ⊕ ψ))) : List (Moment α ι ω) :=
  trace.filterMap leftMoment

def rightTrace (trace : List (Moment (State α β γ) (Input ι κ γ) (ω ⊕ ψ))) : List (Moment β κ ψ) :=
  trace.filterMap rightMoment

/-- What the left party has given. -/
def givenLeft (trace : List (Moment (State α β γ) (Input ι κ γ) (ω ⊕ ψ))) : List γ :=
  trace.flatMap fun m =>
    match m.input with
    | .left _ given => given
    | .right _ _ => []

/-- What the right party has given. -/
def givenRight (trace : List (Moment (State α β γ) (Input ι κ γ) (ω ⊕ ψ))) : List γ :=
  trace.flatMap fun m =>
    match m.input with
    | .left _ _ => []
    | .right _ given => given

/-- What the steps of a party have taken. -/
def taken (takes : σ → ι → List γ) (trace : List (Moment σ ι ω)) : List γ :=
  trace.flatMap fun m => takes m.state m.input

/-- What the steps of a party may have given. -/
inductive Gave (gives : Moment σ ι ω → List γ → Prop) : List (Moment σ ι ω) → List γ → Prop
  | nil : Gave gives [] []
  | snoc {trace : List (Moment σ ι ω)} {m : Moment σ ι ω} {before given : List γ} :
      Gave gives trace before → gives m given → Gave gives (trace ++ [m]) (before ++ given)

@[simp] theorem taken_nil (takes : σ → ι → List γ) :
    taken takes ([] : List (Moment σ ι ω)) = [] := rfl

@[simp] theorem taken_snoc (takes : σ → ι → List γ) (trace : List (Moment σ ι ω))
    (m : Moment σ ι ω) : taken takes (trace ++ [m]) = taken takes trace ++ takes m.state m.input := by
  simp [taken]

/-- Who gives what a step says has given what its steps say. -/
theorem Gave.eq_flatMap {f : Moment σ ι ω → List γ} {trace : List (Moment σ ι ω)} {given : List γ}
    (h : Gave (fun m given => given = f m) trace given) : given = trace.flatMap f := by
  induction h with
  | nil => rfl
  | snoc _ hgives ih => rw [ih, hgives, List.flatMap_append, List.flatMap_singleton]

section Snoc

variable {L : Party α ι ω γ} {R : Party β κ ψ γ} {s s' : State α β γ} {i : Input ι κ γ}
  {out : List (ω ⊕ ψ)} {trace : List (Moment (State α β γ) (Input ι κ γ) (ω ⊕ ψ))}

theorem leftTrace_snoc (m : Moment (State α β γ) (Input ι κ γ) (ω ⊕ ψ)) :
    leftTrace (trace ++ [m]) = leftTrace trace ++ (leftMoment m).toList := by
  rw [leftTrace, leftTrace, List.filterMap_append]
  cases h : leftMoment m with
  | none => rw [List.filterMap_cons_none h, List.filterMap_nil, Option.toList_none]
  | some moment => rw [List.filterMap_cons_some h, List.filterMap_nil, Option.toList_some]

theorem rightTrace_snoc (m : Moment (State α β γ) (Input ι κ γ) (ω ⊕ ψ)) :
    rightTrace (trace ++ [m]) = rightTrace trace ++ (rightMoment m).toList := by
  rw [rightTrace, rightTrace, List.filterMap_append]
  cases h : rightMoment m with
  | none => rw [List.filterMap_cons_none h, List.filterMap_nil, Option.toList_none]
  | some moment => rw [List.filterMap_cons_some h, List.filterMap_nil, Option.toList_some]

theorem leftMoment_left (s : State α β γ) (k : ι) (given : List γ) (events : List ω) :
    leftMoment (⟨s, .left k given, events.map .inl⟩ :
      Moment (State α β γ) (Input ι κ γ) (ω ⊕ ψ)) = some ⟨s.left, k, events⟩ := by
  have hout : (events.map (Sum.inl : ω → ω ⊕ ψ)).filterMap Sum.getLeft? = events := by
    rw [List.filterMap_map]
    exact List.filterMap_some
  simp only [leftMoment, hout]

theorem rightMoment_right (s : State α β γ) (k : κ) (given : List γ) (events : List ψ) :
    rightMoment (⟨s, .right k given, events.map .inr⟩ :
      Moment (State α β γ) (Input ι κ γ) (ω ⊕ ψ)) = some ⟨s.right, k, events⟩ := by
  have hout : (events.map (Sum.inr : ψ → ω ⊕ ψ)).filterMap Sum.getRight? = events := by
    rw [List.filterMap_map]
    exact List.filterMap_some
  simp only [rightMoment, hout]

/-- **A step of the pair is a step of one of the parties**, and nothing to the other one. -/
theorem Step.cases (h : Step L R s i out s') :
    (∃ k events given, i = .left k given ∧ L.step s.left k events s'.left ∧
        L.gives ⟨s.left, k, events⟩ given ∧ s'.right = s.right ∧
        s.down = L.takes s.left k ++ s'.down ∧ s'.up = s.up ++ given ∧
        leftMoment ⟨s, i, out⟩ = some ⟨s.left, k, events⟩ ∧ rightMoment ⟨s, i, out⟩ = none) ∨
      ∃ k events given, i = .right k given ∧ R.step s.right k events s'.right ∧
        R.gives ⟨s.right, k, events⟩ given ∧ s'.left = s.left ∧
        s.up = R.takes s.right k ++ s'.up ∧ s'.down = s.down ++ given ∧
        rightMoment ⟨s, i, out⟩ = some ⟨s.right, k, events⟩ ∧ leftMoment ⟨s, i, out⟩ = none := by
  cases h with
  | @left a a' b k events given up down hstep hgives =>
      refine .inl ⟨k, events, given, rfl, hstep, hgives, rfl, rfl, rfl, ?_, rfl⟩
      exact leftMoment_left ⟨a, b, up, L.takes a k ++ down⟩ k given events
  | @right a b b' k events given up down hstep hgives =>
      refine .inr ⟨k, events, given, rfl, hstep, hgives, rfl, rfl, rfl, ?_, rfl⟩
      exact rightMoment_right ⟨a, b, R.takes b k ++ up, down⟩ k given events

end Snoc

/-! ### Runs -/

section Runs

variable {L : Party α ι ω γ} {R : Party β κ ψ γ} {s₀ s : State α β γ}
  {trace : List (Moment (State α β γ) (Input ι κ γ) (ω ⊕ ψ))}

/-- **A run of the pair is a run of the left party**, which has given what its steps may give. -/
theorem run_left (hrun : Run (Step L R) s₀ trace s) :
    Run L.step s₀.left (leftTrace trace) s.left ∧
      Gave L.gives (leftTrace trace) (givenLeft trace) := by
  induction hrun with
  | nil => exact ⟨.nil, .nil⟩
  | @snoc trace s s' i out hrun hstep ih =>
      obtain ⟨ihrun, ihgave⟩ := ih
      rw [leftTrace_snoc]
      rcases hstep.cases with ⟨k, events, given, rfl, hleft, hgives, -, -, -, hmoment, -⟩ |
        ⟨k, events, given, rfl, -, -, hsame, -, -, -, hnone⟩
      · rw [hmoment, Option.toList_some]
        refine ⟨.snoc ihrun hleft, ?_⟩
        have hgiven : givenLeft (trace ++ [⟨s, .left k given, out⟩]) = givenLeft trace ++ given := by
          simp [givenLeft]
        rw [hgiven]
        exact .snoc ihgave hgives
      · rw [hnone, Option.toList_none, List.append_nil, hsame]
        refine ⟨ihrun, ?_⟩
        have hgiven : givenLeft (trace ++ [⟨s, .right k given, out⟩]) = givenLeft trace := by
          simp [givenLeft]
        rwa [hgiven]

/-- **A run of the pair is a run of the right party**, which has given what its steps may give. -/
theorem run_right (hrun : Run (Step L R) s₀ trace s) :
    Run R.step s₀.right (rightTrace trace) s.right ∧
      Gave R.gives (rightTrace trace) (givenRight trace) := by
  induction hrun with
  | nil => exact ⟨.nil, .nil⟩
  | @snoc trace s s' i out hrun hstep ih =>
      obtain ⟨ihrun, ihgave⟩ := ih
      rw [rightTrace_snoc]
      rcases hstep.cases with ⟨k, events, given, rfl, -, -, hsame, -, -, -, hnone⟩ |
        ⟨k, events, given, rfl, hright, hgives, -, -, -, hmoment, -⟩
      · rw [hnone, Option.toList_none, List.append_nil, hsame]
        refine ⟨ihrun, ?_⟩
        have hgiven : givenRight (trace ++ [⟨s, .left k given, out⟩]) = givenRight trace := by
          simp [givenRight]
        rwa [hgiven]
      · rw [hmoment, Option.toList_some]
        refine ⟨.snoc ihrun hright, ?_⟩
        have hgiven : givenRight (trace ++ [⟨s, .right k given, out⟩]) =
            givenRight trace ++ given := by
          simp [givenRight]
        rw [hgiven]
        exact .snoc ihgave hgives

/-- **Nothing is lost on the way up, and nothing is added.** -/
theorem conserved_up (hrun : Run (Step L R) s₀ trace s) :
    s₀.up ++ givenLeft trace = taken R.takes (rightTrace trace) ++ s.up := by
  induction hrun with
  | nil => exact List.append_nil _
  | @snoc trace s s' i out hrun hstep ih =>
      rw [rightTrace_snoc]
      rcases hstep.cases with ⟨k, events, given, rfl, -, -, -, -, hup, -, hnone⟩ |
        ⟨k, events, given, rfl, -, -, -, hup, -, hmoment, -⟩
      · have hgiven : givenLeft (trace ++ [⟨s, .left k given, out⟩]) = givenLeft trace ++ given := by
          simp [givenLeft]
        rw [hgiven, hnone, Option.toList_none, List.append_nil, hup, ← List.append_assoc, ih,
          List.append_assoc]
      · have hgiven : givenLeft (trace ++ [⟨s, .right k given, out⟩]) = givenLeft trace := by
          simp [givenLeft]
        rw [hgiven, hmoment, Option.toList_some, taken_snoc, ih, hup, List.append_assoc]

/-- **Nothing is lost on the way down, and nothing is added.** -/
theorem conserved_down (hrun : Run (Step L R) s₀ trace s) :
    s₀.down ++ givenRight trace = taken L.takes (leftTrace trace) ++ s.down := by
  induction hrun with
  | nil => exact List.append_nil _
  | @snoc trace s s' i out hrun hstep ih =>
      rw [leftTrace_snoc]
      rcases hstep.cases with ⟨k, events, given, rfl, -, -, -, hdown, -, hmoment, -⟩ |
        ⟨k, events, given, rfl, -, -, -, -, hdown, -, hnone⟩
      · have hgiven : givenRight (trace ++ [⟨s, .left k given, out⟩]) = givenRight trace := by
          simp [givenRight]
        rw [hgiven, hmoment, Option.toList_some, taken_snoc, ih, hdown, List.append_assoc]
      · have hgiven : givenRight (trace ++ [⟨s, .right k given, out⟩]) =
            givenRight trace ++ given := by
          simp [givenRight]
        rw [hgiven, hnone, Option.toList_none, List.append_nil, hdown, ← List.append_assoc, ih,
          List.append_assoc]

/-- As long as the right party has given nothing, the left one has taken nothing. -/
theorem taken_left_of_silent (hrun : Run (Step L R) s₀ trace s) (hdown : s₀.down = [])
    (hsilent : givenRight trace = []) : taken L.takes (leftTrace trace) = [] ∧ s.down = [] := by
  have hconserved := conserved_down hrun
  rw [hdown, hsilent, List.append_nil] at hconserved
  exact List.append_eq_nil_iff.1 hconserved.symm

end Runs

end Duplex
