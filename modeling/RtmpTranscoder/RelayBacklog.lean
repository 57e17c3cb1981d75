/-
**How much a pusher holds back.**

The policy has a limit for the payload bytes that are held back.  With `DropNewest` a message that
does not fit is not taken, and the limit is kept.  With `DropOldest` the oldest message makes room for
it, but only that one: if the messages differ in size, this need not be enough, and the message is
held back all the same.

Main definitions:

* `Relay.Bounded` — the limit is kept, or a single message is larger than it;
* `Relay.Fits` — the message fits, or dropping the oldest one makes enough room.

Main results:

* `Relay.bounded_holdBack` — a message that fits keeps the limit;
* `Relay.backlog_bounded_iff` — **the limit is kept over a run exactly if every message that is held
  back fits**;
* `Relay.backlog_exceeds` — a keyframe behind two smaller messages.
-/

import RtmpTranscoder.RelayQueue

set_option relaxedAutoImplicit false
set_option autoImplicit false

namespace Relay

open Machine (Run Moment)
open Rtmp (Message)

/-- What is held back is within the limit, or a single message that is larger. -/
def Bounded (policy : RelayPolicy) (buffer : List Message) : Prop :=
  payloadBytes buffer ≤ policy.maxPendingBytes ∨ ∃ msg, buffer = [msg]

/-- A message that is held back fits: with the policy `DropOldest`, it does so now, or once the oldest
message is dropped. -/
def Fits (policy : RelayPolicy) (buffer : List Message) (msg : Message) : Prop :=
  policy.backpressure = .dropNewest ∨
    payloadBytes buffer + msg.payload.length ≤ policy.maxPendingBytes ∨ buffer.tail = [] ∨
    payloadBytes buffer.tail + msg.payload.length ≤ policy.maxPendingBytes

variable {policy : RelayPolicy} {buffer : List Message} {msg : Message}

/-- **A message that fits keeps the limit.** -/
theorem bounded_holdBack (hpolicy : policy.backpressure ≠ .disconnect) (h : Bounded policy buffer)
    (hfits : Fits policy buffer msg) : Bounded policy (holdBack policy buffer msg) := by
  by_cases hle : payloadBytes buffer + msg.payload.length ≤ policy.maxPendingBytes
  · unfold holdBack
    rw [if_pos hle]
    exact .inl (by simpa using hle)
  unfold holdBack
  rw [if_neg hle]
  cases hp : policy.backpressure with
  | dropOldest =>
      cases buffer with
      | nil => exact .inr ⟨msg, rfl⟩
      | cons front rest =>
          rcases hfits with hnewest | hfits | htail | htail
          · rw [hp] at hnewest
            cases hnewest
          · exact absurd hfits hle
          · rw [List.tail_cons] at htail
            exact .inr ⟨msg, by rw [htail]; rfl⟩
          · exact .inl (by simpa using htail)
  | dropNewest => exact h
  | disconnect => exact absurd hp hpolicy

theorem fits_of_bounded (hpolicy : policy.backpressure ≠ .disconnect)
    (h : Bounded policy (holdBack policy buffer msg)) : Fits policy buffer msg := by
  by_cases hle : payloadBytes buffer + msg.payload.length ≤ policy.maxPendingBytes
  · exact .inr (.inl hle)
  unfold holdBack at h
  rw [if_neg hle] at h
  cases hp : policy.backpressure with
  | dropOldest =>
      rw [hp] at h
      cases buffer with
      | nil => exact .inr (.inr (.inl rfl))
      | cons front rest =>
          rcases h with h | ⟨msg', h⟩
          · exact .inr (.inr (.inr (by simpa using h)))
          · have hlen := congrArg List.length h
            rw [List.length_append, List.length_singleton, List.length_singleton] at hlen
            exact .inr (.inr (.inl (List.eq_nil_of_length_eq_zero (Nat.succ.inj hlen))))
  | dropNewest => exact .inl hp
  | disconnect => exact absurd hp hpolicy

/-! ### Runs -/

/-- The pusher holds this message back. -/
def HoldsBack (m : Moment Pusher PusherEvent ClientCall) (msg : Message) : Prop :=
  m.input = .relay msg ∧ isMedia msg = true ∧ m.state.publishing = false

variable {r : RelaySettings} {streamId : StreamId} {p : Pusher}
  {trace : List (Moment Pusher PusherEvent ClientCall)}

/-- If all that is held back fits, the limit is kept all the time. -/
theorem bounded_of_fits (hpolicy : r.policy.backpressure ≠ .disconnect)
    (hrun : Run (pusherMachine r) { streamId := streamId } trace p)
    (hfits : ∀ m ∈ trace, ∀ msg, HoldsBack m msg → Fits r.policy m.state.buffer msg) :
    Bounded r.policy p.buffer := by
  refine hrun.invariant (I := fun _ p => Bounded r.policy p.buffer) hfits (.inl (Nat.zero_le _)) ?_
  intro trace p event calls p' hrun hbounded hfits hstep
  cases event with
  | relay msg =>
      cases hmedia : isMedia msg with
      | false =>
          simp only [pusherMachine, Pusher.handle, relayMessage, hmedia, Bool.not_false,
            if_true] at hstep
          obtain ⟨rfl, -⟩ := Prod.mk.inj hstep
          exact hbounded
      | true =>
          cases hpublishing : p.publishing with
          | true =>
              simp only [pusherMachine, Pusher.handle, relayMessage, hmedia, hpublishing,
                Bool.not_true, Bool.false_eq_true, if_false, if_true] at hstep
              obtain ⟨rfl, -⟩ := Prod.mk.inj hstep
              exact hbounded
          | false =>
              have haccounted := (inOrder_of_run hrun).accounted
              obtain ⟨rfl, -⟩ := Prod.mk.inj
                ((haccounted.relayMessage hmedia hpublishing).symm.trans hstep)
              exact bounded_holdBack hpolicy hbounded (hfits msg ⟨rfl, hmedia, hpublishing⟩)
  | connected =>
      obtain ⟨rfl, -⟩ := Prod.mk.inj hstep
      exact hbounded
  | message stale msg =>
      rcases handlePusherMessage_cases p stale msg with heq | heq | ⟨-, heq⟩
      · obtain ⟨rfl, -⟩ := Prod.mk.inj (heq.symm.trans hstep)
        exact hbounded
      · obtain ⟨rfl, -⟩ := Prod.mk.inj (heq.symm.trans hstep)
        exact hbounded
      · obtain ⟨rfl, -⟩ := Prod.mk.inj (heq.symm.trans hstep)
        exact .inl (Nat.zero_le _)
  | disconnected resolve =>
      simp only [pusherMachine, Pusher.handle, handlePusherDisconnected] at hstep
      split at hstep
      · obtain ⟨rfl, -⟩ := Prod.mk.inj hstep
        exact hbounded
      · obtain ⟨rfl, -⟩ := Prod.mk.inj hstep
        exact hbounded

/-- **The limit is kept after every message that is relayed while the pusher does not publish exactly
if every message that is held back fits.** -/
theorem backlog_bounded_iff (hpolicy : r.policy.backpressure ≠ .disconnect)
    (hrun : Run (pusherMachine r) { streamId := streamId } trace p) :
    (∀ m ∈ trace, ∀ msg, m.input = .relay msg → m.state.publishing = false →
        Bounded r.policy (relayMessage r.policy m.state msg).1.buffer) ↔
      ∀ m ∈ trace, ∀ msg, HoldsBack m msg → Fits r.policy m.state.buffer msg := by
  constructor
  · rintro hbounded m hm msg ⟨hinput, hmedia, hpublishing⟩
    obtain ⟨before, after, rfl⟩ := List.append_of_mem hm
    have haccounted := (inOrder_of_run hrun.split.1).accounted
    have := hbounded m hm msg hinput hpublishing
    rw [haccounted.relayMessage hmedia hpublishing] at this
    exact fits_of_bounded hpolicy this
  · intro hfits m hm msg hinput hpublishing
    obtain ⟨before, after, rfl⟩ := List.append_of_mem hm
    have hbefore := hrun.split.1
    have hbounded := bounded_of_fits hpolicy hbefore fun m' hm' =>
      hfits m' (List.mem_append_left _ hm')
    cases hmedia : isMedia msg with
    | false =>
        simp only [relayMessage, hmedia, Bool.not_false, if_true]
        exact hbounded
    | true =>
        rw [(inOrder_of_run hbefore).accounted.relayMessage hmedia hpublishing]
        exact bounded_holdBack hpolicy hbounded (hfits m hm msg ⟨hinput, hmedia, hpublishing⟩)

/-! ### Two audio messages and a video message -/

/-- At most two bytes are to be held back. -/
def smallSettings : RelaySettings where
  policy := { maxPendingBytes := 2 }

/-- A pusher that holds two audio messages of one byte back. -/
def twoAudio : Pusher where
  streamId := {}
  pendingBytes := 2
  buffer := [⟨8, 0, 1, [1]⟩, ⟨8, 20, 1, [1]⟩]

/-- Two audio messages are held back, and then a video message. -/
def audioThenVideo (video : List UInt8) : List (Moment Pusher PusherEvent ClientCall) :=
  [⟨{ streamId := {} }, .relay ⟨8, 0, 1, [1]⟩, []⟩,
    ⟨{ streamId := {}, pendingBytes := 1, buffer := [⟨8, 0, 1, [1]⟩] }, .relay ⟨8, 20, 1, [1]⟩, []⟩,
    ⟨twoAudio, .relay ⟨9, 30, 1, video⟩, []⟩]

theorem run_audioThenVideo (video : List UInt8) :
    Run (pusherMachine smallSettings) { streamId := {} } (audioThenVideo video)
      (relayMessage smallSettings.policy twoAudio ⟨9, 30, 1, video⟩).1 := by
  refine .snoc (.snoc (.snoc .nil rfl) rfl) (Prod.ext rfl ?_)
  have haccounted : twoAudio.Accounted := rfl
  simp only [Pusher.handle]
  rw [haccounted.relayMessage rfl rfl]

/-- A video message of one byte fits, once the oldest message is dropped. -/
theorem backlog_bounded_small : Bounded smallSettings.policy
    (relayMessage smallSettings.policy twoAudio ⟨9, 30, 1, [1]⟩).1.buffer := by
  refine (backlog_bounded_iff (by decide) (run_audioThenVideo [1])).2 (fun m hm msg hholds => ?_)
    _ (List.mem_cons_of_mem _ (List.mem_cons_of_mem _ (List.mem_singleton_self _))) _ rfl rfl
  obtain ⟨hinput, -, -⟩ := hholds
  simp only [audioThenVideo, List.mem_cons, List.not_mem_nil, or_false] at hm
  rcases hm with rfl | rfl | rfl
  · exact .inr (.inr (.inl rfl))
  · exact .inr (.inr (.inl rfl))
  · obtain rfl := PusherEvent.relay.inj hinput
    exact .inr (.inr (.inr (by decide)))

/-- A video message of two bytes does not: one byte of audio is still in front of it. -/
theorem backlog_exceeds : ¬ ∀ (r : RelaySettings) (streamId : StreamId)
    (trace : List (Moment Pusher PusherEvent ClientCall)) (p : Pusher),
    r.policy.backpressure ≠ .disconnect →
      Run (pusherMachine r) { streamId := streamId } trace p →
      ∀ m ∈ trace, ∀ msg, m.input = .relay msg → m.state.publishing = false →
        Bounded r.policy (relayMessage r.policy m.state msg).1.buffer := by
  intro h
  have hbounded := h smallSettings {} _ _ (by decide) (run_audioThenVideo [1, 2])
    _ (List.mem_cons_of_mem _ (List.mem_cons_of_mem _ (List.mem_singleton_self _))) _ rfl rfl
  have hsize : payloadBytes
      (relayMessage smallSettings.policy twoAudio ⟨9, 30, 1, [1, 2]⟩).1.buffer = 3 := by decide
  have hlength :
      (relayMessage smallSettings.policy twoAudio ⟨9, 30, 1, [1, 2]⟩).1.buffer.length = 2 := by
    decide
  rcases hbounded with hle | ⟨msg, heq⟩
  · rw [hsize] at hle
    exact absurd hle (by decide)
  · rw [heq] at hlength
    exact absurd hlength (by simp)

end Relay
