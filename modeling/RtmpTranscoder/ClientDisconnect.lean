/-
**How often a client reports the end of its connection.**

`cleanup` calls the disconnected callback whether or not there was anything to clean up; only
`disconnect` asks first whether the socket is valid.  The callback in the event loop goes through its
branches one after the other, and does not ask either.  But the first `cleanup` takes this callback out of
the loop, and so destroys what it has captured: a read that ends the connection and a hang-up that are
reported together are no second call of the disconnected callback, but a use of memory that is free.

Between two events nothing goes wrong.  After a `cleanup` the descriptor is not registered any more,
so the loop does not call back, and `disconnect` has nothing to do.

Main definitions:

* `Rtmp.EventClient.WriteFails`, `Rtmp.EventClient.EndsOnce` — no two branches for one event find
  the connection at its end;
* `Rtmp.NotifiesOnce` — at most one call between two calls of `connect`;
* `Rtmp.EventClient.HandlesOnce` — all of the actions are handled, and notify so.

Main results:

* `Rtmp.EventClient.Ended.perform` — a client that has ended is silent until it connects again;
* `Rtmp.EventClient.Sound.onEvents_cases` — **what one event does**: it ends the connection at most once,
  or uses what is free;
* `Rtmp.EventClient.notifiesOnce_iff` — **a client notifies at most once for every connection, and handles
  its events exactly if no two branches find it at its end**;
* `Rtmp.EventClient.hang_up_not_handled` — a peer that closes its connection.
-/

import RtmpTranscoder.ClientLoop

set_option relaxedAutoImplicit false
set_option autoImplicit false

namespace Rtmp

/-- Between two calls of `connect` the disconnected callback is called at most once. -/
def NotifiesOnce (trace : List (Machine.Moment EventClient ClientAction LoopOutput)) : Prop :=
  ∀ before period after, trace = before ++ period ++ after →
    (∀ m ∈ period, ∀ o, m.input ≠ .connect o) → disconnects (Machine.outputs period) ≤ 1

namespace EventClient

/-- A new client handles all of these actions, and its disconnected callback is called at most once
between two calls of `connect`. -/
def HandlesOnce (policy : GrowthPolicy) (actions : List ClientAction) : Prop :=
  ∃ trace c, Machine.Run (Machine.ofFun (perform policy)) (new policy) trace c ∧
    Machine.inputs trace = actions ∧ NotifiesOnce trace

variable {c c' : EventClient} {policy : GrowthPolicy}

/-- There is something to write, and the socket does not take it. -/
def WriteFails (c : EventClient) (written : Except Failure ℕ) : Prop :=
  c.connecting = false ∧ c.takeOutgoing.writeBuffer ≠ [] ∧ ∃ f, written = .error f

/-- At most one of the branches that the mask selects finds the connection at its end. -/
structure EndsOnce (c : EventClient) (mask : EpollEvents) (o : SocketOutcome) : Prop where
  write : mask.epollOut → c.WriteFails o.written →
    ¬ (mask.epollIn ∨ mask.epollErr ∨ mask.epollHup)
  read : mask.epollIn → c.toClient.ReadEnds o.readiness → ¬ (mask.epollErr ∨ mask.epollHup)

/-- The action is an event for which the client is called back, and which finds the connection at
its end more than once. -/
def EndsTwice (c : EventClient) (action : ClientAction) : Prop :=
  ∃ mask o, action = .events mask o ∧ c.interest ≠ none ∧ ¬ c.EndsOnce mask o

/-! ### The branches -/

theorem isNone_modify (c : EventClient) (events : Interest) :
    (c.modify events).interest.isNone = c.interest.isNone := Option.isNone_map

/-- A write is the end of the connection exactly if it fails; otherwise the branch for reading finds
what it would have found without it. -/
theorem Sound.onWritable_ends (h : c.Sound) (written : Except Failure ℕ) :
    (c.WriteFails written ∧ (c.onWritable written).1.Ended ∧
        disconnects (c.onWritable written).2 = 1) ∨
      (¬ c.WriteFails written ∧ (c.onWritable written).1.socketOpen = c.socketOpen ∧
        (c.onWritable written).1.interest.isNone = c.interest.isNone ∧
        (∀ r, (c.onWritable written).1.toClient.ReadEnds r ↔ c.toClient.ReadEnds r) ∧
        disconnects (c.onWritable written).2 = 0) := by
  have htake : ∀ r, c.takeOutgoing.toClient.ReadEnds r ↔ c.toClient.ReadEnds r := by
    intro r
    unfold EventClient.takeOutgoing
    split <;> exact Iff.rfl
  have hopen : c.takeOutgoing.socketOpen = c.socketOpen := by
    unfold EventClient.takeOutgoing
    split <;> rfl
  have hinterest : c.takeOutgoing.interest.isNone = c.interest.isNone := by
    unfold EventClient.takeOutgoing
    split <;> rfl
  unfold EventClient.onWritable
  split
  · rename_i hconnecting
    have hnot : ¬ c.WriteFails written := fun hw => by simp [hw.1] at hconnecting
    right
    cases written with
    | error f => exact ⟨hnot, rfl, rfl, fun r => Iff.rfl, rfl⟩
    | ok n =>
        dsimp only
        split
        · exact ⟨hnot, rfl, isNone_modify _ _, fun r => Iff.rfl, rfl⟩
        · exact ⟨hnot, rfl, rfl, fun r => Iff.rfl, rfl⟩
  · rename_i hconnecting
    rw [Bool.not_eq_true] at hconnecting
    unfold EventClient.handleWritable
    dsimp only
    split
    · rename_i hempty
      exact .inr ⟨fun hw => hw.2.1 (List.isEmpty_iff.1 hempty), hopen,
        (isNone_modify _ _).trans hinterest, htake, rfl⟩
    · rename_i hempty
      rw [List.isEmpty_iff] at hempty
      cases written with
      | error f => exact .inl ⟨⟨hconnecting, hempty, f, rfl⟩, h.takeOutgoing.cleanup_ended, rfl⟩
      | ok n =>
          have hnot : ¬ c.WriteFails (.ok n) := fun ⟨_, _, f, hf⟩ => by cases hf
          dsimp only
          split
          · exact .inr ⟨hnot, hopen, hinterest, htake, rfl⟩
          · exact .inr ⟨hnot, hopen, (isNone_modify _ _).trans hinterest, htake, rfl⟩

/-- What the branch for writing leaves behind: a connection at its end, after one call, or one that is as
it was. -/
theorem Sound.write_branch (h : c.Sound) (hinterest : c.interest ≠ none) (mask : EpollEvents)
    (written : Except Failure ℕ) :
    let r := if mask.epollOut then c.onWritable written else (c, [])
    r.1.Sound ∧
      (((mask.epollOut ∧ c.WriteFails written) ∧ r.1.Ended ∧ disconnects r.2 = 1) ∨
        (¬ (mask.epollOut ∧ c.WriteFails written) ∧ r.1.interest.isNone = false ∧
          (∀ readiness, r.1.ReadEnds readiness ↔ c.toClient.ReadEnds readiness) ∧
          disconnects r.2 = 0)) := by
  have hopen := (h.registered hinterest).1
  have hnone : c.interest.isNone = false := Option.isNone_eq_false_iff.2 (Option.isSome_iff_ne_none.2 hinterest)
  have hreads {c' : EventClient} (hstill : c'.socketOpen = true)
      (hsame : ∀ r, c'.toClient.ReadEnds r ↔ c.toClient.ReadEnds r) (r : Readiness) :
      c'.ReadEnds r ↔ c.toClient.ReadEnds r := by
    rw [ReadEnds, hstill, hsame]
    simp
  intro r
  by_cases hout : mask.epollOut = true
  · simp only [r, if_pos hout]
    refine ⟨h.onWritable _, ?_⟩
    rcases h.onWritable_ends written with ⟨hfails, hended, hn⟩ | ⟨hfails, hsame, hi, hsames, hn⟩
    · exact .inl ⟨⟨hout, hfails⟩, hended, hn⟩
    · exact .inr ⟨fun hw => hfails hw.2, hi.trans hnone, hreads (hsame.trans hopen) hsames, hn⟩
  · simp only [r, if_neg hout]
    exact ⟨h, .inr ⟨fun hw => hout hw.1, hnone, hreads hopen fun _ => Iff.rfl, rfl⟩⟩

/-- **What one event does**: where the connection ends in at most one branch, there is at most one call of
the disconnected callback, and none of them without an end; where it ends before another branch, this one
uses what is free. -/
theorem Sound.onEvents_cases (h : c.Sound) (hinterest : c.interest ≠ none) (mask : EpollEvents)
    (o : SocketOutcome) :
    (¬ c.EndsOnce mask o ∧ c.onEvents mask o = .error .useAfterFree) ∨
      (c.EndsOnce mask o ∧ ∃ c' out, c.onEvents mask o = .ok (c', out) ∧ disconnects out ≤ 1 ∧
        (disconnects out ≠ 0 → c'.Ended)) := by
  obtain ⟨h₁, hwrite⟩ := h.write_branch hinterest mask o.written
  simp only [EventClient.onEvents]
  generalize (if mask.epollOut = true then c.onWritable o.written else (c, [])) = r₁ at h₁ hwrite ⊢
  have hhang : (mask.epollErr || mask.epollHup) = true ↔ mask.epollErr ∨ mask.epollHup :=
    Bool.or_eq_true_iff
  generalize (mask.epollErr || mask.epollHup) = hangUp at hhang ⊢
  rcases hwrite with ⟨hfails, hended, hn⟩ | ⟨hfails, hnone, hreads, hn⟩
  · -- the write has ended the connection
    have hgone : r₁.1.interest.isNone = true := by rw [hended.interest]; rfl
    rw [hgone, Bool.true_and]
    by_cases hmore : (mask.epollIn || hangUp) = true
    · rw [if_pos hmore]
      refine .inl ⟨fun honce => honce.write hfails.1 hfails.2 ?_, rfl⟩
      rwa [Bool.or_eq_true_iff, hhang] at hmore
    · rw [if_neg hmore]
      rw [Bool.or_eq_true_iff, hhang] at hmore
      have hin : mask.epollIn = false := Bool.eq_false_iff.2 fun hin => hmore (.inl hin)
      have hup : hangUp = false := Bool.eq_false_iff.2 fun hup => hmore (.inr (hhang.1 hup))
      refine .inr ⟨⟨fun _ _ => hmore, fun _ _ hany => hmore (.inr hany)⟩, r₁.1, r₁.2, ?_, hn.le,
        fun _ => hended⟩
      simp [hin, hup]
  · have hwrites : mask.epollOut → c.WriteFails o.written →
        ¬ (mask.epollIn ∨ mask.epollErr ∨ mask.epollHup) := fun hout hw => absurd ⟨hout, hw⟩ hfails
    rw [hnone, Bool.false_and, if_neg Bool.false_ne_true]
    obtain ⟨c₂, out₂, hcall, h₂, hbranch⟩ : ∃ c₂ out₂,
        (if mask.epollIn = true then r₁.1.handleReadable o.readiness else .ok (r₁.1, []))
          = .ok (c₂, out₂) ∧ c₂.Sound ∧
        (((mask.epollIn ∧ c.toClient.ReadEnds o.readiness) ∧ c₂.Ended ∧ disconnects out₂ = 1) ∨
          (¬ (mask.epollIn ∧ c.toClient.ReadEnds o.readiness) ∧ c₂.interest.isNone = false ∧
            disconnects out₂ = 0)) := by
      by_cases hin : mask.epollIn = true
      · obtain ⟨c₂, out₂, hcall, h₂, -, -, hcases⟩ := h₁.handleReadable o.readiness
        refine ⟨c₂, out₂, by rw [if_pos hin]; exact hcall, h₂, ?_⟩
        rcases hcases with ⟨hr, hended, hn₂⟩ | ⟨hr, -, -, hsame, hn₂⟩
        · exact .inl ⟨⟨hin, (hreads _).1 hr⟩, hended, hn₂⟩
        · exact .inr ⟨fun hr' => hr ((hreads _).2 hr'.2), by rw [hsame]; exact hnone, hn₂⟩
      · exact ⟨r₁.1, [], if_neg hin, h₁, .inr ⟨fun hr => hin hr.1, hnone, rfl⟩⟩
    rw [hcall]
    dsimp only
    rcases hbranch with ⟨hends, hended, hn₂⟩ | ⟨hends, hnone₂, hn₂⟩
    · -- the read has
      have hgone : c₂.interest.isNone = true := by rw [hended.interest]; rfl
      rw [hgone, Bool.true_and]
      by_cases hup : hangUp = true
      · rw [if_pos hup]
        exact .inl ⟨fun honce => honce.read hends.1 hends.2 (hhang.1 hup), rfl⟩
      · rw [if_neg hup, if_neg hup]
        refine .inr ⟨⟨hwrites, fun _ _ hany => hup (hhang.2 hany)⟩, _, _, rfl, ?_, fun _ => hended⟩
        simp only [disconnects_append, hn, hn₂, disconnects_nil]
        exact Nat.le_refl 1
    · rw [hnone₂, Bool.false_and, if_neg Bool.false_ne_true]
      refine .inr ⟨⟨hwrites, fun hin hr => absurd ⟨hin, hr⟩ hends⟩, _, _, rfl, ?_⟩
      simp only [disconnects_append, hn, hn₂, Nat.zero_add]
      split
      · exact ⟨Nat.le_refl 1, fun _ => h₂.cleanup_ended⟩
      · exact ⟨Nat.zero_le 1, fun hne => absurd rfl hne⟩

/-! ### Between two connects -/

theorem Ended.requestWrite (h : c.Ended) : c.requestWrite = c := by
  simp only [EventClient.requestWrite, h.client.socketOpen, Bool.false_and, Bool.false_eq_true,
    if_false]

theorem Ended.perform_send (h : c.Ended) {action : ClientAction}
    {encoded : Except Failure (List UInt8)}
    (haction : action.encoding c.session.outChunkSize = some encoded) {out : List LoopOutput}
    (hcall : c.perform policy action = .ok (c', out)) : c'.Ended ∧ disconnects out = 0 := by
  rw [EventClient.perform_send haction] at hcall
  split at hcall
  · cases encoded with
    | error f => cases hcall
    | ok bytes =>
        have hqueued : (c.enqueue bytes).Ended :=
          ⟨⟨h.client.socketOpen, h.client.connected, h.client.connecting⟩, h.interest⟩
        obtain ⟨rfl, rfl⟩ := Prod.mk.inj (Except.ok.inj hcall)
        rw [hqueued.requestWrite]
        exact ⟨hqueued, rfl⟩
  · obtain ⟨rfl, rfl⟩ := Prod.mk.inj (Except.ok.inj hcall)
    exact ⟨h, rfl⟩

/-- **A client that has ended is silent until it connects again.** -/
theorem Ended.perform (h : c.Ended) {action : ClientAction}
    (hconnect : ∀ o, action ≠ .connect o) {out : List LoopOutput}
    (hcall : c.perform policy action = .ok (c', out)) : c'.Ended ∧ disconnects out = 0 := by
  cases action with
  | connect o => exact absurd rfl (hconnect o)
  | disconnect =>
      simp only [EventClient.perform, EventClient.disconnect, h.client.socketOpen,
        Bool.false_eq_true, if_false] at hcall
      obtain ⟨rfl, rfl⟩ := Prod.mk.inj (Except.ok.inj hcall)
      exact ⟨h, rfl⟩
  | sendMessage msg => exact h.perform_send rfl hcall
  | sendCommand cmd csid => exact h.perform_send rfl hcall
  | flush written =>
      simp only [EventClient.perform, EventClient.flush, h.client.socketOpen, Bool.not_false,
        if_true] at hcall
      obtain ⟨rfl, rfl⟩ := Prod.mk.inj (Except.ok.inj hcall)
      exact ⟨h, rfl⟩
  | events mask o =>
      simp only [EventClient.perform, h.interest, Option.isSome_none, Bool.false_eq_true, if_false]
        at hcall
      obtain ⟨rfl, rfl⟩ := Prod.mk.inj (Except.ok.inj hcall)
      exact ⟨h, rfl⟩

theorem disconnects_flush (c : EventClient) (written : Except Failure ℕ) :
    disconnects (c.flush written).2 = 0 := by
  unfold EventClient.flush
  split
  · rfl
  · dsimp only
    split
    · rfl
    · split
      · rfl
      · split <;> rfl

/-- **An action fails exactly if it is an event that finds the connection at its end more than once.**
Otherwise there is at most one call of the disconnected callback, and none without an end. -/
theorem Sound.perform_cases (h : c.Sound) (policy : GrowthPolicy) (action : ClientAction) :
    (c.EndsTwice action ∧ c.perform policy action = .error .useAfterFree) ∨
      (¬ c.EndsTwice action ∧ ∃ c' out, c.perform policy action = .ok (c', out) ∧
        ((∀ o, action ≠ .connect o) → disconnects out ≤ 1 ∧ (disconnects out ≠ 0 → c'.Ended))) := by
  by_cases hevents : ∃ mask o, action = .events mask o ∧ c.interest ≠ none
  · obtain ⟨mask, o, rfl, hinterest⟩ := hevents
    simp only [EventClient.perform, Option.isSome_iff_ne_none.2 hinterest, if_true]
    rcases h.onEvents_cases hinterest mask o with ⟨hnot, hfree⟩ | ⟨honce, c', out, hcall, hcalls⟩
    · exact .inl ⟨⟨mask, o, rfl, hinterest, hnot⟩, hfree⟩
    · refine .inr ⟨?_, c', out, hcall, fun _ => hcalls⟩
      rintro ⟨mask', o', heq, -, hnot⟩
      obtain ⟨rfl, rfl⟩ := ClientAction.events.inj heq
      exact hnot honce
  · have hnot : ¬ c.EndsTwice action := by
      rintro ⟨mask, o, heq, hinterest, -⟩
      exact hevents ⟨mask, o, heq, hinterest⟩
    have hsilent {c' : EventClient} {out : List LoopOutput} (hz : disconnects out = 0) :
        disconnects out ≤ 1 ∧ (disconnects out ≠ 0 → c'.Ended) :=
      ⟨by omega, fun hne => absurd hz hne⟩
    refine .inr ⟨hnot, ?_⟩
    cases action with
    | connect o => exact ⟨_, _, rfl, fun hconnect => absurd rfl (hconnect o)⟩
    | disconnect =>
        refine ⟨c.disconnect.1, c.disconnect.2, rfl, fun _ => ?_⟩
        simp only [EventClient.disconnect]
        split
        · exact ⟨Nat.le_refl 1, fun _ => h.cleanup_ended⟩
        · exact hsilent rfl
    | sendMessage msg =>
        have hsends : ClientAction.encoding c.session.outChunkSize (.sendMessage msg) = some _ := rfl
        obtain ⟨c', out, hcall, -⟩ := h.perform_send policy hsends
        exact ⟨c', out, hcall, fun _ => hsilent (by rw [outputs_of_send hsends hcall]; rfl)⟩
    | sendCommand cmd csid =>
        have hsends : ClientAction.encoding c.session.outChunkSize (.sendCommand cmd csid) = some _ := rfl
        obtain ⟨c', out, hcall, -⟩ := h.perform_send policy hsends
        exact ⟨c', out, hcall, fun _ => hsilent (by rw [outputs_of_send hsends hcall]; rfl)⟩
    | flush written => exact ⟨_, _, rfl, fun _ => hsilent (c.disconnects_flush written)⟩
    | events mask o =>
        have hnone : c.interest.isSome = false := by
          rw [Option.isSome_eq_false_iff, Option.isNone_iff_eq_none]
          by_contra hsome
          exact hevents ⟨mask, o, rfl, hsome⟩
        refine ⟨c, [], ?_, fun _ => hsilent rfl⟩
        simp only [EventClient.perform, hnone, Bool.false_eq_true, if_false]

/-- Between two calls of `connect` there is at most one call, and after it the client has ended. -/
theorem Sound.run_disconnects {period : List (Machine.Moment EventClient ClientAction LoopOutput)}
    (h : c.Sound) (hrun : Machine.Run (machine policy) c period c')
    (hconnect : ∀ m ∈ period, ∀ o, m.input ≠ .connect o) :
    disconnects (Machine.outputs period) ≤ 1 ∧
      (disconnects (Machine.outputs period) ≠ 0 → c'.Ended) := by
  refine hrun.invariant (P := fun m => ∀ o, m.input ≠ .connect o)
    (I := fun period c => disconnects (Machine.outputs period) ≤ 1 ∧
      (disconnects (Machine.outputs period) ≠ 0 → c.Ended))
    hconnect ⟨Nat.zero_le 1, fun hne => absurd rfl hne⟩ ?_
  rintro period c action out c' hrun ⟨hle, hended⟩ hno hstep
  rw [Machine.outputs_snoc, disconnects_append]
  have hcalls : disconnects out ≤ 1 ∧ (disconnects out ≠ 0 → c'.Ended) := by
    rcases (h.run hrun).perform_cases policy action with ⟨-, hfree⟩ | ⟨-, c'', out', hcall, hcalls⟩
    · cases hfree.symm.trans hstep
    · obtain ⟨rfl, rfl⟩ := Prod.mk.inj (Except.ok.inj (hcall.symm.trans hstep))
      exact hcalls hno
  dsimp only
  by_cases hz : disconnects (Machine.outputs period) = 0
  · rw [hz, Nat.zero_add]
    exact hcalls
  · obtain ⟨hended'', hz'⟩ := (hended hz).perform hno hstep
    exact ⟨by omega, fun _ => hended''⟩

/-- A run notifies once: what would be a second call is none. -/
theorem notifiesOnce_of_run {trace : List (Machine.Moment EventClient ClientAction LoopOutput)}
    (hrun : Machine.Run (machine policy) (new policy) trace c) : NotifiesOnce trace := by
  rintro before period after rfl hno
  obtain ⟨c₁, hbefore, -⟩ := hrun.of_append
  obtain ⟨c₂, hbefore, hperiod⟩ := hbefore.of_append
  exact (((Sound.new policy).run hbefore).run_disconnects hperiod hno).1

/-- **The disconnected callback is called at most once for every connection, and all events are handled
exactly if none of them finds a connection at its end more than once.** -/
theorem notifiesOnce_iff (policy : GrowthPolicy) :
    (∀ trace c, Machine.Run (machine policy) (new policy) trace c → NotifiesOnce trace) ∧
    ∀ actions, HandlesOnce policy actions ↔
      ∀ before action after, actions = before ++ action :: after →
        ∀ trace c, Machine.Run (machine policy) (new policy) trace c →
          Machine.inputs trace = before → ¬ c.EndsTwice action := by
  refine ⟨fun trace c hrun => notifiesOnce_of_run hrun, fun actions => ?_⟩
  have hhandles : HandlesOnce policy actions ↔ ∃ trace c,
      Machine.Run (machine policy) (new policy) trace c ∧ Machine.inputs trace = actions := by
    constructor
    · rintro ⟨trace, c, hrun, hinputs, -⟩
      exact ⟨trace, c, hrun, hinputs⟩
    · rintro ⟨trace, c, hrun, hinputs⟩
      exact ⟨trace, c, hrun, hinputs, notifiesOnce_of_run hrun⟩
  rw [hhandles, Machine.exists_run_iff]
  refine forall_congr' fun before => forall_congr' fun action => forall_congr' fun after =>
    forall_congr' fun _ => forall_congr' fun trace => forall_congr' fun c => forall_congr' fun hrun =>
      forall_congr' fun _ => ?_
  rcases ((Sound.new policy).run hrun).perform_cases policy action with
    ⟨htwice, hfree⟩ | ⟨hnot, c', out, hcall, -⟩
  · refine iff_of_false ?_ (not_not_intro htwice)
    rintro ⟨c', out, hcall⟩
    cases hfree.symm.trans hcall
  · exact iff_of_true ⟨c', out, hcall⟩ hnot

/-! ### A peer that closes its connection -/

def afterConnect : EventClient :=
  (new .exact).connect .exact ⟨true, true, true, true, fun _ => 0⟩

/-- The client connects, and reads the end of the stream, which may be reported with a hang-up. -/
def closing (hup : Bool) : List ClientAction :=
  [.connect ⟨true, true, true, true, fun _ => 0⟩,
    .events ⟨true, false, false, hup⟩ ⟨.ok 0, .ok [], .ok 0⟩]

/-- Without the hang-up it is handled. -/
example : HandlesOnce .exact (closing false) := by
  have hreplay : Machine.replay (perform .exact) (new .exact) (closing false) = .ok (_, _) := rfl
  have hrun := Machine.run_of_replay hreplay
  exact ⟨_, _, hrun, Machine.inputs_of_replay hreplay, notifiesOnce_of_run hrun⟩

/-- The end of the stream and the hang-up: what has been captured is used after it is free. -/
theorem hang_up_not_handled : afterConnect.perform .exact
      (.events ⟨true, false, false, true⟩ ⟨.ok 0, .ok [], .ok 0⟩) = .error .useAfterFree ∧
    ¬ ∀ policy actions, HandlesOnce policy actions := by
  refine ⟨rfl, fun h => ?_⟩
  obtain ⟨trace, c, hrun, hinputs, -⟩ := h .exact (closing true)
  have hreplay := Machine.replay_of_run hrun
  rw [hinputs] at hreplay
  cases hreplay

end EventClient

end Rtmp
