/-
**Actions: what is done one after the other.**

An action changes a state and produces outputs.  It may ask for answers from outside, and it may use
what is not there.  An answer that is never given makes the action *impossible*: there is no such run,
and nothing is said about it.  A use of what is not there makes it *dangling*, and this is what must not
happen; or it makes it *undefined*, where nobody claims that it does not happen: the run ends there, as
nothing can be said of what comes behind it.

A sequence of actions is understood from its parts.  An invariant that each of them keeps is kept by the
whole, and so is a relation between the state before and the state after, if it composes.

Main definitions:

* `Actions.Fault`, `Actions.Action` — why an action is not done, and actions;
* `Actions.andThen`, `Actions.all` — one action after another, and all of a list;
* `Actions.Composes` — relations that can be put one behind the other;
* `Actions.Keeps`, `Actions.Sane`, `Actions.Safe` — an action that keeps an invariant and does what a
  relation says, one that is not dangling, and one of both kinds.

Main results:

* `Actions.Keeps.andThen`, `Actions.Keeps.all` — **what the parts keep, the whole keeps**;
* `Actions.Safe.andThen`, `Actions.Safe.all` — **a whole is safe if its parts are**.
-/

import Mathlib

set_option relaxedAutoImplicit false
set_option autoImplicit false

namespace Actions

variable {σ ω : Type*}

/-- Why an action is not done: an answer is given that is never given, or an object is used that is not
there, which must not happen or which may. -/
inductive Fault where
  | impossible
  | dangling
  | undefined
  deriving DecidableEq, Repr

/-- What is done in a state: the state after it, and what it produces. -/
abbrev Action (σ ω : Type*) := σ → Except Fault (σ × List ω)

def nothing : Action σ ω := fun s => .ok (s, [])

/-- One action, and then another. -/
def andThen (a b : Action σ ω) : Action σ ω := fun s =>
  match a s with
  | .error f => .error f
  | .ok (s₁, out₁) =>
      match b s₁ with
      | .error f => .error f
      | .ok (s₂, out₂) => .ok (s₂, out₁ ++ out₂)

def all : List (Action σ ω) → Action σ ω
  | [] => nothing
  | a :: actions => andThen a (all actions)

section Steps

variable {a b : Action σ ω} {s s₁ s₂ : σ} {out out₁ out₂ : List ω}

theorem ok_ne_dangling {result : σ × List ω} : (.ok result : Except Fault (σ × List ω)) ≠
    .error .dangling := by
  intro h
  cases h

theorem andThen_ok (ha : a s = .ok (s₁, out₁)) (hb : b s₁ = .ok (s₂, out₂)) :
    andThen a b s = .ok (s₂, out₁ ++ out₂) := by
  simp only [andThen, ha, hb]

theorem andThen_error {f : Fault} (ha : a s = .error f) : andThen a b s = .error f := by
  simp only [andThen, ha]

/-- What is done by two actions is done by the one and then by the other. -/
theorem of_andThen (h : andThen a b s = .ok (s₂, out)) :
    ∃ s₁ out₁ out₂, a s = .ok (s₁, out₁) ∧ b s₁ = .ok (s₂, out₂) ∧ out = out₁ ++ out₂ := by
  unfold andThen at h
  cases ha : a s with
  | error f =>
      rw [ha] at h
      cases h
  | ok first =>
      obtain ⟨s₁, out₁⟩ := first
      simp only [ha] at h
      cases hb : b s₁ with
      | error f =>
          rw [hb] at h
          cases h
      | ok second =>
          rw [hb] at h
          obtain ⟨rfl, rfl⟩ := Prod.mk.inj (Except.ok.inj h)
          exact ⟨s₁, out₁, second.2, rfl, hb, rfl⟩

/-- What all actions of a list do, the first ones do, and then the others. -/
theorem of_all_append {before after : List (Action σ ω)} (h : all (before ++ after) s = .ok (s₂, out)) :
    ∃ s₁ out₁ out₂, all before s = .ok (s₁, out₁) ∧ all after s₁ = .ok (s₂, out₂) ∧
      out = out₁ ++ out₂ := by
  induction before generalizing s out with
  | nil => exact ⟨s, [], out, rfl, h, rfl⟩
  | cons a before ih =>
      obtain ⟨s₁, out₁, out₂, hfirst, hrest, rfl⟩ := of_andThen h
      obtain ⟨s', out₃, out₄, hbefore, hafter, rfl⟩ := ih hrest
      exact ⟨s', out₁ ++ out₃, out₄, andThen_ok hfirst hbefore, hafter, (List.append_assoc ..).symm⟩

end Steps

/-! ### What actions keep -/

/-- A relation between the state before, what is produced, and the state after, that can be put one
behind the other. -/
structure Composes (R : σ → List ω → σ → Prop) : Prop where
  refl : ∀ s, R s [] s
  trans : ∀ {s s₁ s₂ out₁ out₂}, R s out₁ s₁ → R s₁ out₂ s₂ → R s (out₁ ++ out₂) s₂

/-- Where the invariant `I` holds, the action keeps it, and does what `R` says. -/
def Keeps (I : σ → Prop) (R : σ → List ω → σ → Prop) (a : Action σ ω) : Prop :=
  ∀ s s' out, I s → a s = .ok (s', out) → I s' ∧ R s out s'

/-- Where the invariant `I` holds, the action is not dangling. -/
def Sane (I : σ → Prop) (a : Action σ ω) : Prop :=
  ∀ s, I s → a s ≠ .error .dangling

/-- Both. -/
structure Safe (I : σ → Prop) (R : σ → List ω → σ → Prop) (a : Action σ ω) : Prop where
  keeps : Keeps I R a
  sane : Sane I a

section Keeps

variable {I : σ → Prop} {R : σ → List ω → σ → Prop} {a b : Action σ ω} {s : σ} {actions : List (Action σ ω)}

theorem Keeps.nothing (hR : Composes R) : Keeps I R (nothing : Action σ ω) := by
  intro s s' out hs h
  obtain ⟨rfl, rfl⟩ := Prod.mk.inj (Except.ok.inj h)
  exact ⟨hs, hR.refl s⟩

/-- **What two actions keep is kept by the one and then the other.** -/
theorem Keeps.andThen (hR : Composes R) (ha : Keeps I R a) (hb : Keeps I R b) :
    Keeps I R (andThen a b) := by
  intro s s' out hs h
  obtain ⟨s₁, out₁, out₂, hfirst, hsecond, rfl⟩ := of_andThen h
  obtain ⟨hs₁, hR₁⟩ := ha s s₁ out₁ hs hfirst
  obtain ⟨hs₂, hR₂⟩ := hb s₁ s' out₂ hs₁ hsecond
  exact ⟨hs₂, hR.trans hR₁ hR₂⟩

/-- **What all actions of a list keep, the whole keeps.** -/
theorem Keeps.all (hR : Composes R) (h : ∀ a ∈ actions, Keeps I R a) : Keeps I R (all actions) := by
  induction actions with
  | nil => exact .nothing hR
  | cons a actions ih =>
      exact .andThen hR (h a List.mem_cons_self) (ih fun b hb => h b (List.mem_cons_of_mem _ hb))

/-- Two actions are not dangling if the first is not, and the second is not behind it. -/
theorem andThen_ne_dangling {s : σ} (ha : a s ≠ .error .dangling)
    (hb : ∀ s₁ out, a s = .ok (s₁, out) → b s₁ ≠ .error .dangling) :
    Actions.andThen a b s ≠ .error .dangling := by
  intro h
  unfold Actions.andThen at h
  cases hfirst : a s with
  | error f =>
      rw [hfirst] at h
      exact ha (hfirst.trans h)
  | ok first =>
      simp only [hfirst] at h
      cases hsecond : b first.1 with
      | error f =>
          rw [hsecond] at h
          exact hb first.1 first.2 hfirst (hsecond.trans (congrArg _ (Except.error.inj h)))
      | ok second =>
          rw [hsecond] at h
          cases h

/-- An action is not done, and not for being dangling. -/
def Stops (a : Action σ ω) (s : σ) : Prop := ∃ f, a s = .error f ∧ f ≠ .dangling

theorem Stops.impossible (h : a s = .error .impossible) : Stops a s := ⟨.impossible, h, by decide⟩

theorem Stops.undefined (h : a s = .error .undefined) : Stops a s := ⟨.undefined, h, by decide⟩

/-- Where the invariant holds, the action either stops, or leads to where it holds, as `R` says. -/
theorem Safe.of_cases
    (h : ∀ s, I s → Stops a s ∨ ∃ s' out, a s = .ok (s', out) ∧ I s' ∧ R s out s') : Safe I R a := by
  constructor
  · intro s s' out hs hdone
    rcases h s hs with ⟨f, hstops, -⟩ | ⟨s₁, out₁, hok, hI, hR⟩
    · rw [hstops] at hdone
      cases hdone
    · obtain ⟨rfl, rfl⟩ := Prod.mk.inj (Except.ok.inj (hok.symm.trans hdone))
      exact ⟨hI, hR⟩
  · intro s hs hdangling
    rcases h s hs with ⟨f, hstops, hf⟩ | ⟨s₁, out₁, hok, -⟩
    · rw [hstops] at hdangling
      exact hf (Except.error.inj hdangling)
    · rw [hok] at hdangling
      cases hdangling

theorem Safe.nothing (hR : Composes R) : Safe I R (nothing : Action σ ω) where
  keeps := .nothing hR
  sane s hs h := by cases h

/-- **Two safe actions are safe.** -/
theorem Safe.andThen (hR : Composes R) (ha : Safe I R a) (hb : Safe I R b) :
    Safe I R (andThen a b) where
  keeps := .andThen hR ha.keeps hb.keeps
  sane s hs := andThen_ne_dangling (ha.sane s hs) fun s₁ out hdone =>
    hb.sane s₁ (ha.keeps s s₁ out hs hdone).1

/-- **A list of safe actions is safe.** -/
theorem Safe.all (hR : Composes R) (h : ∀ a ∈ actions, Safe I R a) : Safe I R (all actions) := by
  induction actions with
  | nil => exact .nothing hR
  | cons a actions ih =>
      exact .andThen hR (h a List.mem_cons_self) (ih fun b hb => h b (List.mem_cons_of_mem _ hb))

end Keeps

end Actions
