/-
**The event loop.**

The kernel keeps a registration for each descriptor that is waited for, and the loop a callback.
The two are kept together by the calls to the loop; but the kernel forgets a descriptor that is
closed, and its number is used again.

`epoll_wait` reports a batch of events at once.  The loop looks up the callback of each of them when
its turn comes, and by then the callbacks before it may have removed the descriptor, or closed it,
or have put another connection under its number.

What `epoll_ctl` and `epoll_wait` answer and what a callback calls are inputs.  A registration is
known by its number, counted from the first one; the loop keeps the number of the registration that
a callback came with.  The loop does not touch a callback again that has removed itself while it runs;
what this one uses behind that is the matter of its module (`ClientLoop.lean`).

Main definitions:

* `Epoll` — the instance of the kernel;
* `EpollLoop`, `EpollLoop.add`, `EpollLoop.modify`, `EpollLoop.remove`, `EpollLoop.runOnce` — the
  loop;
* `EpollLoop.Step` — the loop as a machine, with all that its callbacks may do;
* `Epoll.changes` — what calls make of the callback of a descriptor;
* `Undisturbed` — batches in which no number comes back.

Main results:

* `EpollLoop.call_callbacks`, `EpollLoop.perform_callbacks` — callbacks come and go as the calls say;
* `EpollLoop.Sound.of_run` — the callbacks of registered descriptors are those that they were
  registered with;
* `EpollLoop.dispatch_iff` — when the events of a batch reach their registrations;
* `EpollLoop.delivered_iff` — when the events of a run do.
-/

import RtmpTranscoder.Bytes
import RtmpTranscoder.Machine

set_option relaxedAutoImplicit false
set_option autoImplicit false

open Rtmp (Failure)

/-! ### The kernel -/

/-- A registration, and the events that are waited for. -/
structure Registration where
  number : ℕ
  events : UInt32

/-- An epoll instance: what is registered for a descriptor, and how many registrations there were. -/
structure Epoll where
  registered : ℤ → Option Registration
  next : ℕ

/-- What `epoll_ctl` is asked. -/
inductive EpollOp where
  | add (events : UInt32)
  | mod (events : UInt32)
  | del

/-- A call on the loop, or the end of a descriptor; `refused` is what `epoll_ctl` answers if it fails
for a reason of its own. -/
inductive LoopCall where
  | add (fd : ℤ) (events : UInt32) (refused : Option String)
  | modify (fd : ℤ) (events : UInt32) (refused : Option String)
  | remove (fd : ℤ) (refused : Option String)
  | close (fd : ℤ)

/-- An event that is reported, for the registration `number`, and what the callback that is invoked
with it calls. -/
structure Turn where
  fd : ℤ
  number : ℕ
  events : UInt32
  calls : List LoopCall

/-- What `epoll_wait` answers. -/
inductive Wait where
  | interrupted
  | failed (text : String)
  | ready (batch : List Turn)

namespace Epoll

/-- `epoll_create1`. -/
def new : Epoll := ⟨fun _ => none, 0⟩

/-- `epoll_ctl`. -/
def ctl (k : Epoll) (op : EpollOp) (fd : ℤ) (refused : Option String) : Except String Epoll :=
  match refused, op, k.registered fd with
  | some text, _, _ => .error text
  | none, .add _, some _ => .error "File exists"
  | none, .add events, none =>
      .ok ⟨Function.update k.registered fd (some ⟨k.next, events⟩), k.next + 1⟩
  | none, .mod events, some r =>
      .ok { k with registered := Function.update k.registered fd (some ⟨r.number, events⟩) }
  | none, .del, some _ => .ok { k with registered := Function.update k.registered fd none }
  | none, _, none => .error "No such file or directory"

/-- `close`. -/
def close (k : Epoll) (fd : ℤ) : Epoll :=
  { k with registered := Function.update k.registered fd none }

/-- What `epoll_wait` may answer: it is asked for 32 events, and reports registrations that there
are, each of them once. -/
def MayAnswer (k : Epoll) : Wait → Prop
  | .ready batch => batch.length ≤ 32 ∧ (batch.map Turn.fd).Nodup ∧
      ∀ t ∈ batch, ∃ r, k.registered t.fd = some r ∧ r.number = t.number
  | _ => True

/-- **The answers of `epoll_ctl`, branch by branch.** -/
theorem ctl_ok {k k' : Epoll} {op : EpollOp} {fd : ℤ} {refused : Option String}
    (h : k.ctl op fd refused = .ok k') :
    (∃ events, op = .add events ∧ k.registered fd = none ∧
      k' = ⟨Function.update k.registered fd (some ⟨k.next, events⟩), k.next + 1⟩) ∨
    (∃ events r, op = .mod events ∧ k.registered fd = some r ∧
      k' = { k with registered := Function.update k.registered fd (some ⟨r.number, events⟩) }) ∨
    (op = .del ∧ k' = k.close fd) := by
  unfold ctl at h
  split at h
  · cases h
  · cases h
  · rename_i hnone
    exact Or.inl ⟨_, rfl, hnone, (Except.ok.inj h).symm⟩
  · rename_i hsome
    exact Or.inr (Or.inl ⟨_, _, rfl, hsome, (Except.ok.inj h).symm⟩)
  · exact Or.inr (Or.inr ⟨rfl, (Except.ok.inj h).symm⟩)
  · cases h

end Epoll

/-! ### The loop -/

/-- `EpollLoop`: the callbacks, by the numbers of the registrations that they came with. -/
structure EpollLoop where
  epoll : Epoll
  callbacks : ℤ → Option ℕ

/-- The invocation of a callback with an event. -/
structure Delivery where
  fd : ℤ
  invoked : ℕ
  reported : ℕ
  events : UInt32
  deriving DecidableEq, Repr

namespace EpollLoop

/-- `EpollLoop::EpollLoop`. -/
def new : EpollLoop := ⟨Epoll.new, fun _ => none⟩

/-- `EpollLoop::add`. -/
def add (s : EpollLoop) (fd : ℤ) (events : UInt32) (refused : Option String) :
    EpollLoop × Except Failure Unit :=
  match s.epoll.ctl (.add events) fd refused with
  | .error text => (s, .error (.err ("epoll_ctl ADD failed: " ++ text)))
  | .ok epoll => (⟨epoll, Function.update s.callbacks fd (some s.epoll.next)⟩, .ok ())

/-- `EpollLoop::modify`. -/
def modify (s : EpollLoop) (fd : ℤ) (events : UInt32) (refused : Option String) :
    EpollLoop × Except Failure Unit :=
  match s.epoll.ctl (.mod events) fd refused with
  | .error text => (s, .error (.err ("epoll_ctl MOD failed: " ++ text)))
  | .ok epoll => ({ s with epoll := epoll }, .ok ())

/-- `EpollLoop::remove`. -/
def remove (s : EpollLoop) (fd : ℤ) (refused : Option String) : EpollLoop × Except Failure Unit :=
  match s.epoll.ctl .del fd refused with
  | .error text => (s, .error (.err ("epoll_ctl DEL failed: " ++ text)))
  | .ok epoll => (⟨epoll, Function.update s.callbacks fd none⟩, .ok ())

/-- What a call makes of the loop. -/
def call (s : EpollLoop) : LoopCall → EpollLoop
  | .add fd events refused => (s.add fd events refused).1
  | .modify fd events refused => (s.modify fd events refused).1
  | .remove fd refused => (s.remove fd refused).1
  | .close fd => { s with epoll := s.epoll.close fd }

/-- What several calls make of the loop. -/
def perform (s : EpollLoop) (calls : List LoopCall) : EpollLoop := calls.foldl call s

/-- The turn of an event: a callback is looked up, and invoked. -/
def turn (s : EpollLoop) (t : Turn) : EpollLoop × List Delivery :=
  match s.callbacks t.fd with
  | some n => (s.perform t.calls, [⟨t.fd, n, t.number, t.events⟩])
  | none => (s, [])

/-- The events of a batch, in turn. -/
def dispatch (s : EpollLoop) : List Turn → EpollLoop × List Delivery
  | [] => (s, [])
  | t :: batch => (((s.turn t).1.dispatch batch).1, (s.turn t).2 ++ ((s.turn t).1.dispatch batch).2)

/-- `EpollLoop::run_once`. -/
def runOnce (s : EpollLoop) : Wait → EpollLoop × List Delivery × Except Failure Unit
  | .interrupted => (s, [], .ok ())
  | .failed text => (s, [], .error (.err ("epoll_wait failed: " ++ text)))
  | .ready batch => ((s.dispatch batch).1, (s.dispatch batch).2, .ok ())

/-- What is done with the loop, from outside. -/
inductive Input where
  | call (c : LoopCall)
  | runOnce (wait : Wait)

/-- The loop as a machine. -/
inductive Step : Machine.Step EpollLoop Input Delivery
  | call (s : EpollLoop) (c : LoopCall) : Step s (.call c) [] (s.call c)
  | runOnce {s : EpollLoop} {wait : Wait} (h : s.epoll.MayAnswer wait) :
      Step s (.runOnce wait) (s.runOnce wait).2.1 (s.runOnce wait).1

end EpollLoop

/-! ### What calls make of a callback -/

/-- What becomes of the callback of a descriptor. -/
inductive Change where
  | kept
  | added
  | removed
  deriving DecidableEq

namespace Epoll

def after (k : Epoll) : LoopCall → Epoll
  | .add fd events refused => (k.ctl (.add events) fd refused).toOption.getD k
  | .modify fd events refused => (k.ctl (.mod events) fd refused).toOption.getD k
  | .remove fd refused => (k.ctl .del fd refused).toOption.getD k
  | .close fd => k.close fd

/-- What a call makes of the callback of `fd`: adding and removing it change something, unless they
fail. -/
def change (k : Epoll) (fd : ℤ) : LoopCall → Change
  | .add fd' events refused =>
      if fd' = fd ∧ (k.ctl (.add events) fd' refused).isOk then .added else .kept
  | .remove fd' refused => if fd' = fd ∧ (k.ctl .del fd' refused).isOk then .removed else .kept
  | _ => .kept

/-- What several calls make of the callback of `fd`: the last of them that changes something says. -/
def changes (fd : ℤ) : Epoll → List LoopCall → Change
  | _, [] => .kept
  | k, c :: calls =>
      match changes fd (k.after c) calls with
      | .kept => k.change fd c
      | later => later

/-- No number of a batch comes back before its turn: `made` is what has been called in the batch so
far, and an event whose descriptor has been removed is passed over. -/
def Undisturbed (k : Epoll) (made : List LoopCall) : List Turn → Prop
  | [] => True
  | t :: batch => k.changes t.fd made ≠ .added ∧
      k.Undisturbed (if k.changes t.fd made = .kept then made ++ t.calls else made) batch

theorem next_le_after (k : Epoll) (c : LoopCall) : k.next ≤ (k.after c).next := by
  have hctl (op : EpollOp) (fd : ℤ) (refused : Option String) :
      k.next ≤ ((k.ctl op fd refused).toOption.getD k).next := by
    cases h : k.ctl op fd refused with
    | error text => exact le_rfl
    | ok k' =>
        obtain ⟨_, -, -, rfl⟩ | ⟨_, _, -, -, rfl⟩ | ⟨-, rfl⟩ := ctl_ok h
        · exact Nat.le_succ _
        · exact le_rfl
        · exact le_rfl
  cases c with
  | add fd events refused => exact hctl _ _ _
  | modify fd events refused => exact hctl _ _ _
  | remove fd refused => exact hctl _ _ _
  | close fd => exact le_rfl

end Epoll

namespace EpollLoop

theorem call_epoll (s : EpollLoop) (c : LoopCall) : (s.call c).epoll = s.epoll.after c := by
  cases c with
  | add fd events refused =>
      rw [call, add, Epoll.after]
      cases s.epoll.ctl (.add events) fd refused <;> rfl
  | modify fd events refused =>
      rw [call, modify, Epoll.after]
      cases s.epoll.ctl (.mod events) fd refused <;> rfl
  | remove fd refused =>
      rw [call, remove, Epoll.after]
      cases s.epoll.ctl .del fd refused <;> rfl
  | close fd => rfl

/-- **A call on the loop, branch by branch.** -/
theorem call_callbacks (s : EpollLoop) (c : LoopCall) (fd : ℤ) :
    (s.call c).callbacks fd =
      match s.epoll.change fd c with
      | .kept => s.callbacks fd
      | .added => some s.epoll.next
      | .removed => none := by
  cases c with
  | add fd' events refused =>
      rw [call, add, Epoll.change]
      cases s.epoll.ctl (.add events) fd' refused with
      | error text => simp [Except.isOk, Except.toBool]
      | ok k =>
          by_cases hfd : fd' = fd
          · simp [hfd, Except.isOk, Except.toBool]
          · simp [hfd, Function.update_of_ne (Ne.symm hfd)]
  | modify fd' events refused =>
      have hkept : s.epoll.change fd (.modify fd' events refused) = .kept := rfl
      rw [hkept, call, modify]
      cases s.epoll.ctl (.mod events) fd' refused <;> rfl
  | remove fd' refused =>
      rw [call, remove, Epoll.change]
      cases s.epoll.ctl .del fd' refused with
      | error text => simp [Except.isOk, Except.toBool]
      | ok k =>
          by_cases hfd : fd' = fd
          · simp [hfd, Except.isOk, Except.toBool]
          · simp [hfd, Function.update_of_ne (Ne.symm hfd)]
  | close fd' => rfl

/-- **Callbacks come and go as the calls say**: what is added last, if nothing has removed it, came
after all that there was before. -/
theorem perform_callbacks (s : EpollLoop) (calls : List LoopCall) (fd : ℤ) :
    match s.epoll.changes fd calls with
    | .kept => (s.perform calls).callbacks fd = s.callbacks fd
    | .added => ∃ n, s.epoll.next ≤ n ∧ (s.perform calls).callbacks fd = some n
    | .removed => (s.perform calls).callbacks fd = none := by
  induction calls generalizing s with
  | nil => rfl
  | cons c calls ih =>
      have hlater := ih (s.call c)
      rw [call_epoll] at hlater
      have hperform : s.perform (c :: calls) = (s.call c).perform calls := rfl
      rw [Epoll.changes, hperform]
      cases hchanges : (s.epoll.after c).changes fd calls with
      | kept =>
          rw [hchanges] at hlater
          have hcall := call_callbacks s c fd
          cases hchange : s.epoll.change fd c with
          | kept =>
              rw [hchange] at hcall
              exact hlater.trans hcall
          | added =>
              rw [hchange] at hcall
              exact ⟨_, le_rfl, hlater.trans hcall⟩
          | removed =>
              rw [hchange] at hcall
              exact hlater.trans hcall
      | added =>
          rw [hchanges] at hlater
          obtain ⟨n, hn, hcallbacks⟩ := hlater
          exact ⟨n, (s.epoll.next_le_after c).trans hn, hcallbacks⟩
      | removed =>
          rw [hchanges] at hlater
          exact hlater

/-! ### The loop and the kernel -/

/-- The callback of a registered descriptor is the one that it was registered with; all callbacks came
with a registration. -/
structure Sound (s : EpollLoop) : Prop where
  synced : ∀ fd r, s.epoll.registered fd = some r → s.callbacks fd = some r.number
  counted : ∀ fd n, s.callbacks fd = some n → n < s.epoll.next

namespace Sound

variable {s : EpollLoop}

theorem new : Sound EpollLoop.new := by
  constructor
  · intro fd r h
    cases h
  · intro fd n h
    cases h

/-- What is kept for one descriptor may change, if the loop and the kernel still agree on it. -/
theorem update (h : s.Sound) (fd : ℤ) {r : Option Registration} {n : Option ℕ} {next : ℕ}
    (hnext : s.epoll.next ≤ next) (hsynced : ∀ r', r = some r' → n = some r'.number)
    (hcounted : ∀ n', n = some n' → n' < next) :
    Sound ⟨⟨Function.update s.epoll.registered fd r, next⟩, Function.update s.callbacks fd n⟩ := by
  constructor
  · intro fd' r' hr'
    by_cases hfd : fd' = fd
    · subst hfd
      simp only [Function.update_self] at hr' ⊢
      exact hsynced r' hr'
    · simp only [Function.update_of_ne hfd] at hr' ⊢
      exact h.synced fd' r' hr'
  · intro fd' n' hn'
    by_cases hfd : fd' = fd
    · subst hfd
      simp only [Function.update_self] at hn'
      exact hcounted n' hn'
    · simp only [Function.update_of_ne hfd] at hn'
      exact (h.counted fd' n' hn').trans_le hnext

theorem keep (h : s.Sound) (fd : ℤ) {r : Option Registration}
    (hr : ∀ r', r = some r' → s.callbacks fd = some r'.number) :
    Sound { s with epoll := ⟨Function.update s.epoll.registered fd r, s.epoll.next⟩ } := by
  have hupdate := h.update fd le_rfl hr (h.counted fd)
  rwa [Function.update_eq_self] at hupdate

theorem add (h : s.Sound) (fd : ℤ) (events : UInt32) (refused : Option String) :
    (s.add fd events refused).1.Sound := by
  unfold EpollLoop.add
  cases hctl : s.epoll.ctl (.add events) fd refused with
  | error text => exact h
  | ok k =>
      obtain ⟨_, hop, -, rfl⟩ | ⟨_, _, hop, -⟩ | ⟨hop, -⟩ := Epoll.ctl_ok hctl
      · refine h.update fd (Nat.le_succ _) ?_ ?_
        · intro r hr
          rw [← Option.some.inj hr]
        · intro n hn
          rw [← Option.some.inj hn]
          exact Nat.lt_succ_self _
      · cases hop
      · cases hop

theorem modify (h : s.Sound) (fd : ℤ) (events : UInt32) (refused : Option String) :
    (s.modify fd events refused).1.Sound := by
  unfold EpollLoop.modify
  cases hctl : s.epoll.ctl (.mod events) fd refused with
  | error text => exact h
  | ok k =>
      obtain ⟨_, hop, -⟩ | ⟨_, r, -, hr, rfl⟩ | ⟨hop, -⟩ := Epoll.ctl_ok hctl
      · cases hop
      · refine h.keep fd ?_
        intro r' hr'
        rw [← Option.some.inj hr']
        exact h.synced fd r hr
      · cases hop

theorem remove (h : s.Sound) (fd : ℤ) (refused : Option String) :
    (s.remove fd refused).1.Sound := by
  unfold EpollLoop.remove
  cases hctl : s.epoll.ctl .del fd refused with
  | error text => exact h
  | ok k =>
      obtain ⟨_, hop, -⟩ | ⟨_, _, hop, -⟩ | ⟨-, rfl⟩ := Epoll.ctl_ok hctl
      · cases hop
      · cases hop
      · refine h.update fd le_rfl ?_ ?_
        · intro r hr
          cases hr
        · intro n hn
          cases hn

/-- The kernel forgets a descriptor that is closed, and the loop does not. -/
theorem close (h : s.Sound) (fd : ℤ) : Sound { s with epoll := s.epoll.close fd } := by
  refine h.keep fd ?_
  intro r hr
  cases hr

theorem call (h : s.Sound) (c : LoopCall) : (s.call c).Sound := by
  cases c with
  | add fd events refused => exact h.add fd events refused
  | modify fd events refused => exact h.modify fd events refused
  | remove fd refused => exact h.remove fd refused
  | close fd => exact h.close fd

theorem perform (h : s.Sound) (calls : List LoopCall) : (s.perform calls).Sound := by
  induction calls generalizing s with
  | nil => exact h
  | cons c calls ih => exact ih (h.call c)

theorem turn (h : s.Sound) (t : Turn) : (s.turn t).1.Sound := by
  unfold EpollLoop.turn
  cases s.callbacks t.fd with
  | none => exact h
  | some n => exact h.perform t.calls

theorem dispatch (h : s.Sound) (batch : List Turn) : (s.dispatch batch).1.Sound := by
  induction batch generalizing s with
  | nil => exact h
  | cons t batch ih => exact ih (h.turn t)

theorem step {s' : EpollLoop} {i : Input} {out : List Delivery} (h : s.Sound)
    (hstep : Step s i out s') : s'.Sound := by
  cases hstep with
  | call _ c => exact h.call c
  | @runOnce _ wait _ =>
      cases wait with
      | interrupted => exact h
      | failed text => exact h
      | ready batch => exact h.dispatch batch

/-- **In every state that is reached, the callbacks of registered descriptors are those that they were
registered with.** -/
theorem of_run {trace : List (Machine.Moment EpollLoop Input Delivery)}
    (h : Machine.Run Step EpollLoop.new trace s) : s.Sound := by
  induction h with
  | nil => exact new
  | snoc _ hstep ih => exact ih.step hstep

end Sound

/-! ### Deliveries -/

/-- A callback is invoked with what was reported for the registration that it came with. -/
def Delivered (out : List Delivery) : Prop := ∀ d ∈ out, d.invoked = d.reported

theorem delivered_append {out more : List Delivery} :
    Delivered (out ++ more) ↔ Delivered out ∧ Delivered more := List.forall_mem_append

/-- **The events of a batch reach their registrations** exactly if no number comes back in it. -/
theorem dispatch_iff {s : EpollLoop} (h : s.Sound) {batch : List Turn}
    (hreported : ∀ t ∈ batch, ∃ r, s.epoll.registered t.fd = some r ∧ r.number = t.number)
    (made : List LoopCall) :
    Delivered ((s.perform made).dispatch batch).2 ↔ s.epoll.Undisturbed made batch := by
  induction batch generalizing made with
  | nil => simp [dispatch, Delivered, Epoll.Undisturbed]
  | cons t batch ih =>
      have hrest := ih fun t ht => hreported t (List.mem_cons_of_mem _ ht)
      obtain ⟨r, hr, hnumber⟩ := hreported t List.mem_cons_self
      have hcallback : s.callbacks t.fd = some t.number := by rw [h.synced t.fd r hr, hnumber]
      have hmade := perform_callbacks s made t.fd
      rw [dispatch, delivered_append, Epoll.Undisturbed]
      cases hchanges : s.epoll.changes t.fd made with
      | kept =>
          rw [hchanges, hcallback] at hmade
          have hperform : (s.perform made).perform t.calls = s.perform (made ++ t.calls) :=
            (List.foldl_append ..).symm
          rw [turn, hmade]
          simp only [hperform, hrest, ne_eq, reduceCtorEq, not_false_eq_true, if_true, true_and]
          simp [Delivered]
      | added =>
          -- the callback is that of a later registration
          rw [hchanges] at hmade
          obtain ⟨n, hn, hcallbacks⟩ := hmade
          have hlt : t.number < s.epoll.next := h.counted t.fd t.number hcallback
          rw [turn, hcallbacks]
          constructor
          · intro hall
            have heq : n = t.number := hall.1 ⟨t.fd, n, t.number, t.events⟩ (by simp)
            omega
          · intro hall
            exact absurd rfl hall.1
      | removed =>
          rw [hchanges] at hmade
          rw [turn, hmade]
          simp only [hrest, ne_eq, reduceCtorEq, not_false_eq_true, if_false, true_and]
          simp [Delivered]

/-- No number comes back in the batch of a step. -/
def BatchUndisturbed (m : Machine.Moment EpollLoop Input Delivery) : Prop :=
  match m.input with
  | .runOnce (.ready batch) => m.state.epoll.Undisturbed [] batch
  | _ => True

theorem step_delivered_iff {s s' : EpollLoop} {i : Input} {out : List Delivery} (h : s.Sound)
    (hstep : Step s i out s') : Delivered out ↔ BatchUndisturbed ⟨s, i, out⟩ := by
  cases hstep with
  | call _ c => simp [Delivered, BatchUndisturbed]
  | @runOnce _ wait hwait =>
      cases wait with
      | interrupted => simp [runOnce, Delivered, BatchUndisturbed]
      | failed text => simp [runOnce, Delivered, BatchUndisturbed]
      | ready batch => exact dispatch_iff h hwait.2.2 []

/-- **The events of a run reach their registrations** exactly if no number comes back in any of its
batches. -/
theorem delivered_iff {trace : List (Machine.Moment EpollLoop Input Delivery)} {s : EpollLoop}
    (h : Machine.Run Step new trace s) :
    Delivered (Machine.outputs trace) ↔ ∀ m ∈ trace, BatchUndisturbed m := by
  induction h with
  | nil => simp [Delivered]
  | snoc hrun hstep ih =>
      have hsound := Sound.of_run hrun
      rw [Machine.outputs_snoc, delivered_append, ih, step_delivered_iff hsound hstep]
      simp only [List.forall_mem_append, List.forall_mem_singleton]

/-- A listening socket is added; it accepts a connection, which is added in its turn. -/
def acceptingBatch : List Turn := [⟨4, 0, 1, [.add 7 1 none]⟩]

theorem delivered_accepting :
    Delivered (((new.call (.add 4 1 none)).runOnce (.ready acceptingBatch)).2.1) := by
  have hwait : (new.call (.add 4 1 none)).epoll.MayAnswer (.ready acceptingBatch) :=
    ⟨by decide, by decide, by simp [acceptingBatch, call, add, new, Epoll.new, Epoll.ctl]⟩
  have hrun := (Machine.Run.nil.snoc (Step.call new (.add 4 1 none))).snoc (Step.runOnce hwait)
  have hdelivered := (delivered_iff hrun).2
  simpa [Machine.outputs, BatchUndisturbed, Epoll.Undisturbed, acceptingBatch, Epoll.changes]
    using hdelivered

/-- A publisher 7 that publishes again has the client 8 of an output replaced by another one, which is
given the number 8. -/
def reusingBatch : List Turn := [⟨7, 1, 1, [.remove 8 none, .close 8, .add 8 5 none]⟩, ⟨8, 2, 16, []⟩]

/-- The new client is told that the connection of the old one has been hung up. -/
theorem not_delivered_reusing :
    ¬ ∀ trace s, Machine.Run Step new trace s → Delivered (Machine.outputs trace) := by
  intro h
  have hwait : (new.perform [.add 4 1 none, .add 7 1 none, .add 8 5 none]).epoll.MayAnswer
      (.ready reusingBatch) := by
    refine ⟨by decide, by decide, ?_⟩
    simp [reusingBatch, perform, call, add, new, Epoll.new, Epoll.ctl, Function.update]
  have hrun := (((Machine.Run.nil.snoc (Step.call new (.add 4 1 none))).snoc
    (Step.call _ (.add 7 1 none))).snoc (Step.call _ (.add 8 5 none))).snoc (Step.runOnce hwait)
  have hwrong := h _ _ hrun ⟨8, 3, 2, 16⟩
  revert hwrong
  decide +kernel

end EpollLoop
