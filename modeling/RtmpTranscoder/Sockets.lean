/-
**Sockets, and who closes them.**

A `Socket` holds a descriptor, or −1.  It cannot be copied.  What it holds goes over to another one when
that is constructed from it or assigned to; and what it still holds is closed when it is closed,
assigned to or destroyed.  So a descriptor that has been opened is held by one socket from then on, and
is closed by that one, and once.

A descriptor comes from the system, which opens one that is not open, or answers −1.  The sockets are
objects of a program: they have names, and nothing is known of the order in which they are used.  Storage
that is given to a new object is not in use.

Main definitions:

* `Socket`, `Socket.close` — sockets;
* `SocketOp`, `Sockets.perform` — what is done with sockets, one at a time;
* `Sockets.Holds`, `Sockets.Owned` — who holds a descriptor, and that one socket does.

Main results:

* `Sockets.perform_cases` — **what an operation makes of a descriptor**;
* `Sockets.Owned.perform` — a descriptor that is open is held by one socket;
* `Sockets.closed_once` — **a descriptor is closed by who holds it, and once; none is forgotten**.
-/

import RtmpTranscoder.Actions
import RtmpTranscoder.Machine

set_option relaxedAutoImplicit false
set_option autoImplicit false

open Actions (Action Fault)
open Machine (Moment Run InForce Guarded Obeys ofFun)

/-- `Socket`. -/
structure Socket where
  fd : ℤ
  deriving DecidableEq, Repr

/-- A descriptor is opened, or closed. -/
inductive DescriptorEvent where
  | opened (fd : ℤ)
  | closed (fd : ℤ)
  deriving DecidableEq, Repr

namespace Socket

/-- `Socket::Socket()`. -/
def new : Socket := ⟨-1⟩

/-- `Socket::close`: the socket after it, and what has been closed. -/
def close (s : Socket) : Socket × List DescriptorEvent :=
  if 0 ≤ s.fd then (⟨-1⟩, [.closed s.fd]) else (s, [])

end Socket

/-- What is done with sockets: `Socket()`, `Socket(fd)` with an answer of the system, `Socket(Socket&&)`,
`operator=(Socket&&)`, `close()` and `~Socket()`. -/
inductive SocketOp (κ : Type*) where
  | create (k : κ)
  | adopt (k : κ) (fd : ℤ)
  | moveConstruct (k other : κ)
  | moveAssign (k other : κ)
  | close (k : κ)
  | destroy (k : κ)

/-- The sockets that there are, and the descriptors that are open. -/
structure Sockets (κ : Type*) where
  objects : κ → Option Socket
  descriptors : Finset ℤ

namespace Sockets

variable {κ : Type*}

def none : Sockets κ := ⟨fun _ => .none, ∅⟩

/-- `Socket::close` on a socket, whatever is put in its place. -/
def shut (s : Sockets κ) (socket : Socket) : Sockets κ :=
  if 0 ≤ socket.fd then { s with descriptors := s.descriptors.erase socket.fd } else s

/-- The socket `k` holds a descriptor. -/
def Holds (s : Sockets κ) (k : κ) (fd : ℤ) : Prop := s.objects k = some ⟨fd⟩ ∧ 0 ≤ fd

/-- A descriptor that is open is held by one socket, and no other is held. -/
structure Owned (s : Sockets κ) : Prop where
  held : ∀ fd, fd ∈ s.descriptors ↔ ∃ k, s.Holds k fd
  one : ∀ {k k' fd}, s.Holds k fd → s.Holds k' fd → k = k'

section Holders

variable {s : Sockets κ} {k : κ} {fd : ℤ}

@[simp] theorem objects_shut {socket : Socket} : (s.shut socket).objects = s.objects := by
  unfold shut
  split <;> rfl

theorem holds_shut {socket : Socket} : (s.shut socket).Holds k fd ↔ s.Holds k fd := by
  rw [Holds, Holds, objects_shut]

theorem mem_shut {socket : Socket} :
    fd ∈ (s.shut socket).descriptors ↔ fd ∈ s.descriptors ∧ ¬ (0 ≤ fd ∧ socket = ⟨fd⟩) := by
  obtain ⟨held⟩ := socket
  unfold shut
  split
  · rename_i hvalid
    simp only [Finset.mem_erase, Socket.mk.injEq]
    constructor
    · rintro ⟨hne, hmem⟩
      exact ⟨hmem, fun h => hne h.2.symm⟩
    · rintro ⟨hmem, hnot⟩
      exact ⟨fun heq => hnot ⟨heq ▸ hvalid, heq.symm⟩, hmem⟩
  · rename_i hinvalid
    simp only [Socket.mk.injEq]
    refine ⟨fun hmem => ⟨hmem, fun h => hinvalid ?_⟩, fun h => h.1⟩
    exact h.2 ▸ h.1

/-- A socket in whose place there is nothing, or −1, holds nothing. -/
def Vacant (socket : Option Socket) : Prop := ∀ fd, socket = some ⟨fd⟩ → fd < 0

theorem vacant_none : Vacant .none := by
  intro fd h
  cases h

theorem vacant_closed (socket : Socket) : Vacant (some socket.close.1) := by
  intro fd h
  unfold Socket.close at h
  split at h
  · obtain rfl := Socket.mk.inj (Option.some.inj h)
    decide
  · rename_i hinvalid
    obtain rfl := Option.some.inj h
    exact lt_of_not_ge hinvalid

theorem vacant_minus_one : Vacant (some ⟨-1⟩) := by
  intro fd h
  obtain rfl := Socket.mk.inj (Option.some.inj h)
  decide

theorem Vacant.not_holds {socket : Option Socket} (h : Vacant socket) :
    ¬ (socket = some ⟨fd⟩ ∧ 0 ≤ fd) :=
  fun hheld => absurd (h fd hheld.1) (not_lt_of_ge hheld.2)

end Holders

theorem Owned.mem_iff {s : Sockets κ} (h : s.Owned) (fd : ℤ) :
    fd ∈ s.descriptors ↔ ∃! k, s.Holds k fd := by
  rw [h.held]
  constructor
  · rintro ⟨k, hheld⟩
    exact ⟨k, hheld, fun k' hheld' => h.one hheld' hheld⟩
  · rintro ⟨k, hheld, -⟩
    exact ⟨k, hheld⟩

theorem Owned.empty : Owned (none : Sockets κ) where
  held fd := by
    refine iff_of_false (Finset.notMem_empty fd) ?_
    rintro ⟨k, hheld, -⟩
    cases hheld
  one h := by cases h.1

/-! ### What is opened and closed -/

section Ledgers

variable {s s' : Sockets κ} {k : κ} {out : List DescriptorEvent}

/-- The descriptors after an operation, and what it has opened and closed. -/
def Changed (s : Sockets κ) (out : List DescriptorEvent) (s' : Sockets κ) : Prop :=
  (out = [] ∧ s'.descriptors = s.descriptors) ∨
  (∃ fd, fd ∉ s.descriptors ∧ out = [.opened fd] ∧ s'.descriptors = insert fd s.descriptors) ∨
  ∃ fd ∈ s.descriptors, out = [.closed fd] ∧ s'.descriptors = s.descriptors.erase fd

theorem Owned.changed_shut (h : s.Owned) {socket : Socket} (hsocket : s.objects k = some socket)
    (hdescriptors : s'.descriptors = (s.shut socket).descriptors) :
    s.Changed socket.close.2 s' := by
  by_cases hvalid : 0 ≤ socket.fd
  · refine .inr (.inr ⟨socket.fd, (h.held _).2 ⟨k, hsocket, hvalid⟩, ?_, ?_⟩)
    · rw [Socket.close, if_pos hvalid]
    · rw [hdescriptors, Sockets.shut, if_pos hvalid]
  · refine .inl ⟨?_, ?_⟩
    · rw [Socket.close, if_neg hvalid]
    · rw [hdescriptors, Sockets.shut, if_neg hvalid]

/-- A descriptor has been opened, and not closed since. -/
def Open (fd : ℤ) (log : List DescriptorEvent) : Prop :=
  InForce (· = .opened fd) (· = .closed fd) log

/-- What has been opened and closed, and what is open. -/
structure Ledger (log : List DescriptorEvent) (s : Sockets κ) : Prop where
  open_iff : ∀ fd, fd ∈ s.descriptors ↔ Open fd log
  opened : Obeys (fun before e => ∀ fd, e = .opened fd → ¬ Open fd before) log
  closed : Obeys (fun before e => ∀ fd, e = .closed fd → Open fd before) log

theorem Ledger.empty : Ledger [] (none : Sockets κ) where
  open_iff fd := iff_of_false (Finset.notMem_empty fd) Machine.not_inForce_nil
  opened := Machine.obeys_nil
  closed := Machine.obeys_nil

theorem Ledger.changed {log : List DescriptorEvent} (h : Ledger log s) (hchanged : s.Changed out s') :
    Ledger (log ++ out) s' := by
  rcases hchanged with ⟨rfl, hsame⟩ | ⟨fd, hfresh, rfl, hinsert⟩ | ⟨fd, hopen, rfl, herase⟩
  · rw [List.append_nil]
    exact ⟨fun fd => by rw [hsame, h.open_iff fd], h.opened, h.closed⟩
  · refine ⟨fun fd' => ?_, h.opened.snoc ?_, h.closed.snoc ?_⟩
    · rw [hinsert, Finset.mem_insert, h.open_iff fd', Open, Open, Machine.inForce_snoc]
      simp only [DescriptorEvent.opened.injEq, reduceCtorEq, not_false_eq_true, and_true]
      exact or_congr_left eq_comm
    · intro fd' heq
      obtain rfl := DescriptorEvent.opened.inj heq
      rwa [← h.open_iff]
    · intro fd' heq
      cases heq
  · refine ⟨fun fd' => ?_, h.opened.snoc ?_, h.closed.snoc ?_⟩
    · rw [herase, Finset.mem_erase, h.open_iff fd', Open, Open, Machine.inForce_snoc]
      simp only [DescriptorEvent.closed.injEq, reduceCtorEq, false_or]
      rw [and_comm]
      exact and_congr_right fun _ => not_congr eq_comm
    · intro fd' heq
      cases heq
    · intro fd' heq
      obtain rfl := DescriptorEvent.closed.inj heq
      rwa [← h.open_iff]

end Ledgers

/-! ### The operations -/

variable [DecidableEq κ]

/-- A socket is put where another one may have been. -/
def put (s : Sockets κ) (k : κ) (socket : Option Socket) : Sockets κ :=
  { s with objects := Function.update s.objects k socket }

/-- What an operation does. -/
def perform (op : SocketOp κ) : Action (Sockets κ) DescriptorEvent := fun s =>
  match op with
  | .create k =>
      match s.objects k with
      | some _ => .error .impossible
      | .none => .ok (s.put k (some Socket.new), [])
  | .adopt k fd =>
      match s.objects k with
      | some _ => .error .impossible
      | .none =>
          if fd = -1 then .ok (s.put k (some ⟨-1⟩), [])
          else if fd < 0 ∨ fd ∈ s.descriptors then .error .impossible
          else .ok ({ s.put k (some ⟨fd⟩) with descriptors := insert fd s.descriptors }, [.opened fd])
  | .moveConstruct k other =>
      match s.objects k, s.objects other with
      | some _, _ => .error .impossible
      | .none, .none => .error .dangling
      | .none, some source => .ok ((s.put k (some ⟨source.fd⟩)).put other (some ⟨-1⟩), [])
  | .moveAssign k other =>
      match s.objects k, s.objects other with
      | some target, some source =>
          if k = other then .ok (s, [])
          else .ok ((((s.shut target).put k (some ⟨source.fd⟩)).put other (some ⟨-1⟩)), target.close.2)
      | _, _ => .error .dangling
  | .close k =>
      match s.objects k with
      | some socket => .ok ((s.shut socket).put k (some socket.close.1), socket.close.2)
      | .none => .error .dangling
  | .destroy k =>
      match s.objects k with
      | some socket => .ok ((s.shut socket).put k .none, socket.close.2)
      | .none => .error .dangling

section Operations

variable {s : Sockets κ} {k k' other : κ} {fd : ℤ}

theorem holds_put {socket : Option Socket} :
    (s.put k socket).Holds k' fd ↔ if k' = k then socket = some ⟨fd⟩ ∧ 0 ≤ fd else s.Holds k' fd := by
  unfold Holds put
  by_cases hk : k' = k
  · subst hk
    simp
  · simp [hk]

@[simp] theorem objects_put_self {socket : Option Socket} : (s.put k socket).objects k = socket :=
  Function.update_self ..

theorem objects_put_of_ne {socket : Option Socket} (h : k' ≠ k) :
    (s.put k socket).objects k' = s.objects k' := Function.update_of_ne h ..

theorem put_put {first second third : Option Socket} :
    ((s.put k first).put k second).put other third = (s.put k second).put other third := by
  simp only [put, Function.update_idem]

end Operations

/-! ### A descriptor that is open is held by one socket -/

namespace Owned

variable {s : Sockets κ} {k other : κ} {fd : ℤ}

theorem put (h : s.Owned) {socket : Option Socket} (hbefore : Vacant (s.objects k))
    (hafter : Vacant socket) : (s.put k socket).Owned := by
  have hholds (k' : κ) (fd : ℤ) : (s.put k socket).Holds k' fd ↔ s.Holds k' fd := by
    rw [holds_put]
    by_cases hk : k' = k
    · rw [if_pos hk, hk]
      exact iff_of_false hafter.not_holds hbefore.not_holds
    · rw [if_neg hk]
  constructor
  · intro fd
    simp only [hholds]
    exact h.held fd
  · intro k₁ k₂ fd h₁ h₂
    exact h.one ((hholds k₁ fd).1 h₁) ((hholds k₂ fd).1 h₂)

/-- A socket is closed, and what holds nothing is put in its place. -/
theorem shut (h : s.Owned) {socket : Socket} {after : Option Socket}
    (hsocket : s.objects k = some socket) (hafter : Vacant after) :
    ((s.shut socket).put k after).Owned := by
  have hholds (k' : κ) (fd : ℤ) :
      ((s.shut socket).put k after).Holds k' fd ↔ s.Holds k' fd ∧ k' ≠ k := by
    rw [holds_put]
    by_cases hk : k' = k
    · rw [if_pos hk]
      exact iff_of_false hafter.not_holds fun hheld => hheld.2 hk
    · rw [if_neg hk, holds_shut]
      exact (and_iff_left hk).symm
  constructor
  · intro fd
    simp only [hholds]
    change fd ∈ (s.shut socket).descriptors ↔ _
    rw [mem_shut, h.held fd]
    constructor
    · rintro ⟨⟨k', hheld⟩, hnot⟩
      refine ⟨k', hheld, ?_⟩
      rintro rfl
      exact hnot ⟨hheld.2, Option.some.inj (hsocket.symm.trans hheld.1)⟩
    · rintro ⟨k', hheld, hne⟩
      refine ⟨⟨k', hheld⟩, fun hclosed => hne ?_⟩
      exact h.one hheld ⟨hsocket.trans (congrArg some hclosed.2), hclosed.1⟩
  · intro k₁ k₂ fd h₁ h₂
    exact h.one ((hholds k₁ fd).1 h₁).1 ((hholds k₂ fd).1 h₂).1

/-- What a socket holds goes over to another one, which holds nothing. -/
theorem move (h : s.Owned) {source : Socket} (hvacant : Vacant (s.objects k))
    (hsource : s.objects other = some source) (hne : k ≠ other) :
    ((s.put k (some ⟨source.fd⟩)).put other (some ⟨-1⟩)).Owned := by
  have hholds (k' : κ) (fd : ℤ) : ((s.put k (some ⟨source.fd⟩)).put other (some ⟨-1⟩)).Holds k' fd ↔
      (k' = k ∧ s.Holds other fd) ∨ (k' ≠ other ∧ s.Holds k' fd) := by
    rw [holds_put, holds_put]
    by_cases hother : k' = other
    · rw [if_pos hother]
      refine iff_of_false vacant_minus_one.not_holds ?_
      rintro (⟨hk, -⟩ | ⟨hnot, -⟩)
      · exact hne (hk.symm.trans hother)
      · exact hnot hother
    · rw [if_neg hother]
      by_cases hk : k' = k
      · rw [if_pos hk, hk]
        refine ⟨fun hheld => .inl ⟨rfl, hsource.trans hheld.1, hheld.2⟩, ?_⟩
        rintro (⟨-, hheld⟩ | ⟨-, hheld⟩)
        · exact ⟨hsource.symm.trans hheld.1, hheld.2⟩
        · exact absurd hheld hvacant.not_holds
      · rw [if_neg hk]
        simp only [hk, false_and, false_or, ne_eq, hother, not_false_eq_true, true_and]
  constructor
  · intro fd
    simp only [hholds]
    change fd ∈ s.descriptors ↔ _
    rw [h.held fd]
    constructor
    · rintro ⟨k', hheld⟩
      by_cases hother : k' = other
      · exact ⟨k, .inl ⟨rfl, hother ▸ hheld⟩⟩
      · exact ⟨k', .inr ⟨hother, hheld⟩⟩
    · rintro ⟨k', ⟨-, hheld⟩ | ⟨-, hheld⟩⟩
      · exact ⟨other, hheld⟩
      · exact ⟨k', hheld⟩
  · intro k₁ k₂ fd h₁ h₂
    rcases (hholds k₁ fd).1 h₁ with ⟨rfl, hheld₁⟩ | ⟨hne₁, hheld₁⟩
    · rcases (hholds k₂ fd).1 h₂ with ⟨rfl, -⟩ | ⟨hne₂, hheld₂⟩
      · rfl
      · exact absurd (h.one hheld₂ hheld₁) hne₂
    · rcases (hholds k₂ fd).1 h₂ with ⟨rfl, hheld₂⟩ | ⟨-, hheld₂⟩
      · exact absurd (h.one hheld₁ hheld₂) hne₁
      · exact h.one hheld₁ hheld₂

theorem adopt (h : s.Owned) (hvacant : Vacant (s.objects k)) (hvalid : 0 ≤ fd)
    (hfresh : fd ∉ s.descriptors) :
    Owned { s.put k (some ⟨fd⟩) with descriptors := insert fd s.descriptors } := by
  have hholds (k' : κ) (fd' : ℤ) :
      Holds { s.put k (some ⟨fd⟩) with descriptors := insert fd s.descriptors } k' fd' ↔
        (k' = k ∧ fd' = fd) ∨ s.Holds k' fd' := by
    refine (@holds_put _ _ s k k' fd' (some ⟨fd⟩)).trans ?_
    by_cases hk : k' = k
    · rw [if_pos hk, hk]
      have hnot : ¬ s.Holds k fd' := fun hheld => hvacant.not_holds hheld
      simp only [hnot, or_false, true_and, Option.some.injEq, Socket.mk.injEq]
      refine ⟨fun hheld => hheld.1.symm, fun heq => ⟨heq.symm, heq ▸ hvalid⟩⟩
    · rw [if_neg hk]
      simp only [hk, false_and, false_or]
  have hnew (k' : κ) : ¬ s.Holds k' fd := fun hheld => hfresh ((h.held fd).2 ⟨k', hheld⟩)
  constructor
  · intro fd'
    simp only [hholds, Finset.mem_insert, h.held fd']
    constructor
    · rintro (rfl | ⟨k', hheld⟩)
      · exact ⟨k, .inl ⟨rfl, rfl⟩⟩
      · exact ⟨k', .inr hheld⟩
    · rintro ⟨k', ⟨-, rfl⟩ | hheld⟩
      · exact .inl rfl
      · exact .inr ⟨k', hheld⟩
  · intro k₁ k₂ fd' h₁ h₂
    rcases (hholds k₁ fd').1 h₁ with ⟨rfl, rfl⟩ | hheld₁
    · rcases (hholds k₂ fd').1 h₂ with ⟨rfl, -⟩ | hheld₂
      · rfl
      · exact absurd hheld₂ (hnew k₂)
    · rcases (hholds k₂ fd').1 h₂ with ⟨rfl, rfl⟩ | hheld₂
      · exact absurd hheld₁ (hnew k₁)
      · exact h.one hheld₁ hheld₂

end Owned

/-! ### What a program does with its sockets -/

section Runs

variable {s s' : Sockets κ} {op : SocketOp κ} {out : List DescriptorEvent}
  {trace : List (Moment (Sockets κ) (SocketOp κ) DescriptorEvent)}

/-- **What an operation makes of the descriptors**: an operation that is possible keeps each of them with
one socket, and opens or closes one of them, or none. -/
theorem Owned.perform (h : s.Owned) (hdone : perform op s = .ok (s', out)) :
    s'.Owned ∧ s.Changed out s' := by
  cases op with
  | create k =>
      simp only [Sockets.perform] at hdone
      split at hdone
      · cases hdone
      · rename_i hnone
        obtain ⟨rfl, rfl⟩ := Prod.mk.inj (Except.ok.inj hdone)
        exact ⟨h.put (hnone ▸ vacant_none) vacant_minus_one, .inl ⟨rfl, rfl⟩⟩
  | adopt k fd =>
      simp only [Sockets.perform] at hdone
      split at hdone
      · cases hdone
      · rename_i hnone
        split at hdone
        · obtain ⟨rfl, rfl⟩ := Prod.mk.inj (Except.ok.inj hdone)
          exact ⟨h.put (hnone ▸ vacant_none) vacant_minus_one, .inl ⟨rfl, rfl⟩⟩
        · split at hdone
          · cases hdone
          · rename_i hfresh
            rw [not_or, not_lt] at hfresh
            obtain ⟨rfl, rfl⟩ := Prod.mk.inj (Except.ok.inj hdone)
            exact ⟨h.adopt (hnone ▸ vacant_none) hfresh.1 hfresh.2, .inr (.inl ⟨fd, hfresh.2, rfl, rfl⟩)⟩
  | moveConstruct k other =>
      simp only [Sockets.perform] at hdone
      split at hdone
      · cases hdone
      · cases hdone
      · rename_i source hnone hsource
        obtain ⟨rfl, rfl⟩ := Prod.mk.inj (Except.ok.inj hdone)
        have hne : k ≠ other := by
          rintro rfl
          rw [hnone] at hsource
          cases hsource
        exact ⟨h.move (hnone ▸ vacant_none) hsource hne, .inl ⟨rfl, rfl⟩⟩
  | moveAssign k other =>
      simp only [Sockets.perform] at hdone
      split at hdone
      · rename_i target source htarget hsource
        split at hdone
        · obtain ⟨rfl, rfl⟩ := Prod.mk.inj (Except.ok.inj hdone)
          exact ⟨h, .inl ⟨rfl, rfl⟩⟩
        · rename_i hne
          obtain ⟨rfl, rfl⟩ := Prod.mk.inj (Except.ok.inj hdone)
          -- the socket is closed first, and what the other one holds goes over to it
          have hshut := h.shut htarget vacant_minus_one
          have hvacant : Vacant (((s.shut target).put k (some ⟨-1⟩)).objects k) := by
            rw [objects_put_self]
            exact vacant_minus_one
          have hother : ((s.shut target).put k (some ⟨-1⟩)).objects other = some source := by
            rw [objects_put_of_ne (Ne.symm hne), objects_shut, hsource]
          have hmove := hshut.move hvacant hother hne
          rw [put_put] at hmove
          exact ⟨hmove, h.changed_shut htarget rfl⟩
      · cases hdone
  | close k =>
      simp only [Sockets.perform] at hdone
      split at hdone
      · rename_i socket hsocket
        obtain ⟨rfl, rfl⟩ := Prod.mk.inj (Except.ok.inj hdone)
        exact ⟨h.shut hsocket (vacant_closed socket), h.changed_shut hsocket rfl⟩
      · cases hdone
  | destroy k =>
      simp only [Sockets.perform] at hdone
      split at hdone
      · rename_i socket hsocket
        obtain ⟨rfl, rfl⟩ := Prod.mk.inj (Except.ok.inj hdone)
        exact ⟨h.shut hsocket vacant_none, h.changed_shut hsocket rfl⟩
      · cases hdone

theorem owned_of_run (hrun : Run (ofFun fun s op => perform op s) (none : Sockets κ) trace s) :
    s.Owned ∧ Ledger (Machine.outputs trace) s := by
  induction hrun with
  | nil => exact ⟨.empty, .empty⟩
  | snoc hrun hstep ih =>
      obtain ⟨howned, hledger⟩ := ih
      obtain ⟨howned', hchanged⟩ := howned.perform hstep
      rw [Machine.outputs_snoc]
      exact ⟨howned', hledger.changed hchanged⟩

/-- **A descriptor is closed by who holds it, and once; none is forgotten**: whatever is done with
sockets, and in whatever order.  A descriptor that has been opened and not been closed since is held by
one socket; no descriptor is opened that is open, and none is closed that is not. -/
theorem closed_once (hrun : Run (ofFun fun s op => perform op s) (none : Sockets κ) trace s) :
    (∀ fd, Open fd (Machine.outputs trace) ↔ ∃! k, s.Holds k fd) ∧
      Obeys (fun before e => ∀ fd, e = .opened fd → ¬ Open fd before) (Machine.outputs trace) ∧
      Obeys (fun before e => ∀ fd, e = .closed fd → Open fd before) (Machine.outputs trace) := by
  obtain ⟨howned, hledger⟩ := owned_of_run hrun
  refine ⟨fun fd => ?_, hledger.opened, hledger.closed⟩
  rw [← hledger.open_iff, howned.mem_iff]

/-- A descriptor that has been opened goes over to another socket, and the first one goes. -/
theorem closed_once_moved : ∃ trace, ∃ s : Sockets Bool,
    Run (ofFun fun s op => perform op s) none trace s ∧ Machine.outputs trace = [.opened 5] ∧
    ∃! k, s.Holds k 5 := by
  have hreplay : Machine.replay (fun (s : Sockets Bool) op => perform op s) none
      [.adopt false 5, .moveConstruct true false, .destroy false] = .ok (_, _) := rfl
  have hrun := Machine.run_of_replay hreplay
  have hopen : Open 5 [.opened 5] := ⟨[], .opened 5, [], rfl, rfl, fun _ h => absurd h List.not_mem_nil⟩
  exact ⟨_, _, hrun, rfl, ((closed_once hrun).1 5).1 hopen⟩

end Runs

end Sockets
