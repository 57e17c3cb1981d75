/-
**Machines within machines.**

A machine may have a part that is a machine of its own: whatever the whole does, to the part it is a
step, or nothing at all.  What is known of every run of the part is then known of it inside every run of
the whole.

The whole may also talk to somebody over a connection.  If only the part has a say in that, the
connection is one between the part and the other end.

Main definitions:

* `Machine.Projects` — the steps of a machine, as steps of one of its parts;
* `Duplex.Speaks` — a party for which one of its parts does the talking.

Main results:

* `Machine.Run.project` — **a run of the whole is one of the part**;
* `Duplex.project_left` — **who talks to the whole talks to the part**.
-/

import RtmpTranscoder.Duplex

set_option relaxedAutoImplicit false
set_option autoImplicit false

namespace Machine

variable {σ τ ι κ ω ψ : Type*}

/-- The steps of a machine that satisfy `P` are steps of a part of it, or nothing to that part.  With
`R s t` the part is in the state `t` when the whole is in the state `s`. -/
structure Projects (whole : Step σ ι ω) (part : Step τ κ ψ) (P : Moment σ ι ω → Prop)
    (R : σ → τ → Prop) (proj : Moment σ ι ω → Option (Moment τ κ ψ)) : Prop where
  idle : ∀ {s i out s' t}, R s t → P ⟨s, i, out⟩ → whole s i out s' → proj ⟨s, i, out⟩ = none → R s' t
  active : ∀ {s i out s' t m}, R s t → P ⟨s, i, out⟩ → whole s i out s' →
    proj ⟨s, i, out⟩ = some m → m.state = t ∧ ∃ t', part t m.input m.outputs t' ∧ R s' t'

theorem filterMap_snoc {α β : Type*} (f : α → Option β) (l : List α) (a : α) :
    (l ++ [a]).filterMap f = l.filterMap f ++ (f a).toList := by
  rw [List.filterMap_append]
  cases h : f a with
  | none => rw [List.filterMap_cons_none h, List.filterMap_nil, Option.toList_none]
  | some b => rw [List.filterMap_cons_some h, List.filterMap_nil, Option.toList_some]

section Project

variable {whole : Step σ ι ω} {part : Step τ κ ψ} {P : Moment σ ι ω → Prop} {R : σ → τ → Prop}
  {proj : Moment σ ι ω → Option (Moment τ κ ψ)} {s₀ s : σ} {t₀ : τ} {trace : List (Moment σ ι ω)}

/-- **A run of the whole is one of the part.** -/
theorem Run.project (hrun : Run whole s₀ trace s) (h : Projects whole part P R proj)
    (hP : ∀ m ∈ trace, P m) (h₀ : R s₀ t₀) :
    ∃ t, Run part t₀ (trace.filterMap proj) t ∧ R s t := by
  induction hrun with
  | nil => exact ⟨t₀, .nil, h₀⟩
  | @snoc trace s s' i out _ hstep ih =>
      obtain ⟨t, hrun, ht⟩ := ih fun m hm => hP m (List.mem_append_left _ hm)
      have hm := hP _ (List.mem_append_right _ (List.mem_singleton_self _))
      rw [filterMap_snoc]
      cases hproj : proj ⟨s, i, out⟩ with
      | none =>
          rw [Option.toList_none, List.append_nil]
          exact ⟨t, hrun, h.idle ht hm hstep hproj⟩
      | some moment =>
          obtain ⟨rfl, t', hpart, ht'⟩ := h.active ht hm hstep hproj
          exact ⟨t', hrun.snoc hpart, ht'⟩

theorem Run.projected (hrun : Run whole s₀ trace s) (h : Projects whole part P R proj)
    (hP : ∀ m ∈ trace, P m) (h₀ : R s₀ t₀) : ∀ m ∈ trace, ∃ t, R m.state t := by
  intro m hm
  obtain ⟨before, after, rfl⟩ := List.append_of_mem hm
  obtain ⟨hbefore, -⟩ := hrun.split
  obtain ⟨t, -, ht⟩ := hbefore.project h (fun m hm => hP m (List.mem_append_left _ hm)) h₀
  exact ⟨t, ht⟩

end Project

end Machine

namespace Duplex

open Machine (Moment Run Projects)

variable {α α' β ι ι' κ ω ω' ψ γ : Type*}

/-- A party for which one of its parts does the talking: what is nothing to the part takes nothing and
gives nothing, and everything else takes and gives what it takes and gives for the part. -/
structure Speaks (L : Party α ι ω γ) (L' : Party α' ι' ω' γ) (P : Moment α ι ω → Prop)
    (R : α → α' → Prop) (proj : Moment α ι ω → Option (Moment α' ι' ω')) : Prop
    extends Projects L.step L'.step P R proj where
  silent : ∀ {s i out s' t}, R s t → P ⟨s, i, out⟩ → L.step s i out s' → proj ⟨s, i, out⟩ = none →
    L.takes s i = [] ∧ ∀ given, L.gives ⟨s, i, out⟩ given → given = []
  speaks : ∀ {s i out s' t m}, R s t → P ⟨s, i, out⟩ → L.step s i out s' →
    proj ⟨s, i, out⟩ = some m →
      L.takes s i = L'.takes m.state m.input ∧ ∀ given, L.gives ⟨s, i, out⟩ given → L'.gives m given

variable {L : Party α ι ω γ} {L' : Party α' ι' ω' γ} {T : Party β κ ψ γ} {P : Moment α ι ω → Prop}
  {R : α → α' → Prop} {proj : Moment α ι ω → Option (Moment α' ι' ω')} {s₀ s : State α β γ} {a₀ : α'}
  {trace : List (Moment (State α β γ) (Input ι κ γ) (ω ⊕ ψ))}

/-- The pair, with the part in the place of the whole. -/
def State.inPlace (s : State α β γ) (a : α') : State α' β γ := ⟨a, s.right, s.up, s.down⟩

/-- **Who talks to the whole talks to the part.** -/
theorem project_left (hrun : Run (Step L T) s₀ trace s) (h : Speaks L L' P R proj)
    (hP : ∀ m ∈ leftTrace trace, P m) (h₀ : R s₀.left a₀) :
    ∃ (trace' : List (Moment (State α' β γ) (Input ι' κ γ) (ω' ⊕ ψ))) (a : α'),
      Run (Step L' T) (s₀.inPlace a₀) trace' (s.inPlace a) ∧ R s.left a ∧
      leftTrace trace' = (leftTrace trace).filterMap proj ∧ rightTrace trace' = rightTrace trace := by
  induction hrun with
  | nil => exact ⟨[], a₀, .nil, h₀, rfl, rfl⟩
  | @snoc trace s s' i out hrun hstep ih =>
      obtain ⟨trace', a, hrun', ha, hleft, hright⟩ := ih fun m hm => hP m (by
        rw [leftTrace_snoc]
        exact List.mem_append_left _ hm)
      have hmoments : leftTrace (trace ++ [⟨s, i, out⟩]) =
          leftTrace trace ++ (leftMoment ⟨s, i, out⟩).toList := leftTrace_snoc _
      rcases hstep.cases with
        ⟨k, events, given, rfl, hwhole, hgives, hsame, hdown, hup, hmoment, hnone⟩ |
        ⟨k, events, given, rfl, hother, hgives, hsame, hup, hdown, hmoment, hnone⟩
      · -- the whole takes a step: it is one of the part, or nothing to it
        rw [hmoment, Option.toList_some] at hmoments
        have hm : P ⟨s.left, k, events⟩ := hP _ (by
          rw [hmoments]
          exact List.mem_append_right _ (List.mem_singleton_self _))
        rw [hmoments, Machine.filterMap_snoc, rightTrace_snoc, hnone, Option.toList_none,
          List.append_nil]
        cases hproj : proj ⟨s.left, k, events⟩ with
        | none =>
            obtain ⟨htakes, hsilent⟩ := h.silent ha hm hwhole hproj
            rw [htakes, List.nil_append] at hdown
            rw [hsilent given hgives, List.append_nil] at hup
            refine ⟨trace', a, ?_, h.idle ha hm hwhole hproj, ?_, hright⟩
            · have hstay : s'.inPlace a = s.inPlace a := by
                rw [State.inPlace, hsame, hup, ← hdown]
                rfl
              rwa [hstay]
            · rw [hleft, Option.toList_none, List.append_nil]
        | some moment =>
            obtain ⟨htakes, hspeaks⟩ := h.speaks ha hm hwhole hproj
            obtain ⟨rfl, a', hpart, ha'⟩ := h.active ha hm hwhole hproj
            have hnext : Step L' T (s.inPlace moment.state) (.left moment.input given)
                (moment.outputs.map .inl) (s'.inPlace a') := by
              rw [State.inPlace, State.inPlace, hsame, hup, hdown, htakes]
              exact .left hpart (hspeaks given hgives)
            refine ⟨_, a', hrun'.snoc hnext, ha', ?_, ?_⟩
            · rw [leftTrace_snoc, leftMoment_left, hleft]
              rfl
            · rw [rightTrace_snoc]
              exact (List.append_nil _).trans hright
      · -- the other end takes a step
        rw [hnone, Option.toList_none, List.append_nil] at hmoments
        have hnext : Step L' T (s.inPlace a) (.right k given) (events.map .inr)
            (s'.inPlace a) := by
          rw [State.inPlace, State.inPlace, hup, hdown]
          exact .right hother hgives
        refine ⟨_, a, hrun'.snoc hnext, hsame.symm ▸ ha, ?_, ?_⟩
        · rw [hmoments, leftTrace_snoc]
          exact (List.append_nil _).trans hleft
        · rw [rightTrace_snoc, rightTrace_snoc, hmoment, rightMoment_right, hright]
          rfl

end Duplex
