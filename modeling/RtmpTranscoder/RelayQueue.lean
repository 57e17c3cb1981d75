/-
**The queue of a pusher over a whole run.**

Three handlers change `publishing`, `buffer` and `pending_bytes`: `relay_message` holds media back,
the answer to `createStream` lets everything go, and a disconnection starts again with what is held
back then.  Whatever the order in which they are called, the counter is right, a pusher that publishes
holds nothing back, and what reaches the clients is a part of what was relayed, in the same order.

The invariant behind the last of these is stronger than what is claimed: what has been handed over,
followed by what is held back, is a part of what was relayed.

Main definitions:

* `Relay.relayed`, `Relay.handed` — the media that a pusher is given, and those it hands over;
* `Relay.IsMediaSend`, `Relay.IsPublish`, `Relay.IsCreate` — the calls whose order matters;
* `Relay.InOrder` — the invariant.

Main results:

* `Relay.InOrder.handle` — every event keeps the invariant;
* `Relay.relay_queue` — **the queue is accounted for and in order, and nothing is sent before the
  `publish` command of its connection**.
-/

import RtmpTranscoder.Relay

set_option relaxedAutoImplicit false
set_option autoImplicit false

namespace Relay

open Machine (Run Moment Guarded InForce)
open Rtmp (Failure Message MessageType CommandMessage)
open Text

def relayed (trace : List (Moment Pusher PusherEvent ClientCall)) : List Message :=
  (Machine.inputs trace).filterMap fun
    | .relay msg => if isMedia msg then some msg else none
    | _ => none

/-- The messages that are handed to `Client::send_message`. -/
def handed (calls : List ClientCall) : List Message :=
  calls.filterMap fun
    | .sendMessage msg => some msg
    | _ => none

/-- The call hands a message over. -/
def IsMediaSend (call : ClientCall) : Prop := ∃ msg, call = .sendMessage msg

/-- The call is the `publish` command. -/
def IsPublish (call : ClientCall) : Prop := ∃ stream, call = .sendCommand (publishCmd stream)

/-- The call ends the connection. -/
def IsCreate (call : ClientCall) : Prop := call = .create

@[simp] theorem handed_append (l₁ l₂ : List ClientCall) :
    handed (l₁ ++ l₂) = handed l₁ ++ handed l₂ := List.filterMap_append ..

@[simp] theorem handed_sendMessage (messages : List Message) :
    handed (messages.map .sendMessage) = messages := by
  simp [handed, List.filterMap_map]

theorem relayed_snoc (trace : List (Moment Pusher PusherEvent ClientCall)) (p : Pusher)
    (event : PusherEvent) (calls : List ClientCall) :
    relayed (trace ++ [⟨p, event, calls⟩]) = relayed trace ++
      match event with
      | .relay msg => if isMedia msg then [msg] else []
      | _ => [] := by
  simp only [relayed, Machine.inputs_snoc, List.filterMap_append]
  cases event with
  | relay msg => cases hmedia : isMedia msg <;> simp [hmedia]
  | _ => rfl

/-! ### Holding back -/

/-- What is held back was held back, or has just been relayed. -/
theorem holdBack_sublist (policy : RelayPolicy) (buffer : List Message) (msg : Message) :
    (holdBack policy buffer msg).Sublist (buffer ++ [msg]) := by
  unfold holdBack
  split
  · exact List.Sublist.refl _
  · split
    · exact List.sublist_cons_self _ _
    · exact List.sublist_append_left _ _
    · exact List.Sublist.refl _

/-- With the policy `DropOldest` the end of the queue stays. -/
theorem holdBack_suffix {policy : RelayPolicy} (hpolicy : policy.backpressure = .dropOldest)
    (buffer : List Message) (msg : Message) : holdBack policy buffer msg <:+ buffer ++ [msg] := by
  unfold holdBack
  split
  · exact List.suffix_refl _
  · rw [hpolicy]
    cases buffer with
    | nil => exact List.suffix_refl _
    | cons front rest => exact List.suffix_cons front (rest ++ [msg])

/-! ### The invariant -/

/-- What holds of a pusher after any run. -/
structure InOrder (policy : RelayPolicy) (trace : List (Moment Pusher PusherEvent ClientCall))
    (p : Pusher) : Prop where
  accounted : p.Accounted
  publishing : p.publishing = true → p.buffer = [] ∧
    InForce IsPublish IsCreate (Machine.outputs trace)
  sublist : (handed (Machine.outputs trace) ++ p.buffer).Sublist (relayed trace)
  suffix : policy.backpressure = .dropOldest → p.buffer <:+ relayed trace
  guarded : Guarded IsMediaSend IsPublish IsCreate (Machine.outputs trace)

variable {r : RelaySettings} {trace : List (Moment Pusher PusherEvent ClientCall)} {p p' : Pusher}
  {calls : List ClientCall}

theorem InOrder.start (policy : RelayPolicy) (streamId : StreamId) :
    InOrder policy [] { streamId := streamId } where
  accounted := rfl
  publishing h := absurd h Bool.false_ne_true
  sublist := List.Sublist.refl _
  suffix _ := List.suffix_refl _
  guarded := Machine.guarded_nil

/-- An event that relays nothing, hands nothing over and leaves the queue alone. -/
theorem InOrder.silent (h : InOrder r.policy trace p) {event : PusherEvent}
    (hevent : relayed (trace ++ [⟨p, event, calls⟩]) = relayed trace)
    (hcalls : ∀ call ∈ calls, ¬ IsMediaSend call)
    (hbuffer : p'.buffer = p.buffer ∧ p'.pendingBytes = p.pendingBytes)
    (hpublishing : p'.publishing = true →
      p.publishing = true ∧ ∀ call ∈ calls, ¬ IsCreate call) :
    InOrder r.policy (trace ++ [⟨p, event, calls⟩]) p' := by
  have hnone : handed calls = [] := by
    refine List.filterMap_eq_nil_iff.2 fun call hcall => ?_
    cases call with
    | sendMessage msg => exact absurd ⟨msg, rfl⟩ (hcalls _ hcall)
    | _ => rfl
  obtain ⟨hbuffer, hpending⟩ := hbuffer
  refine ⟨?_, fun hp => ?_, ?_, fun hpolicy => ?_, ?_⟩
  · rw [Pusher.Accounted, hbuffer, hpending]
    exact h.accounted
  · obtain ⟨hp, hcreate⟩ := hpublishing hp
    obtain ⟨hempty, hforce⟩ := h.publishing hp
    rw [Machine.outputs_snoc]
    exact ⟨hbuffer.trans hempty, hforce.append hcreate⟩
  · rw [Machine.outputs_snoc, handed_append, hnone, List.append_nil, hbuffer, hevent]
    exact h.sublist
  · rw [hbuffer, hevent]
    exact h.suffix hpolicy
  · rw [Machine.outputs_snoc]
    exact h.guarded.append_of_not_uses hcalls

theorem InOrder.relay (h : InOrder r.policy trace p) (msg : Message)
    (hcall : relayMessage r.policy p msg = (p', calls)) :
    InOrder r.policy (trace ++ [⟨p, .relay msg, calls⟩]) p' := by
  have hrelayed := relayed_snoc trace p (.relay msg) calls
  cases hmedia : isMedia msg with
  | false =>
      simp only [relayMessage, hmedia, Bool.not_false, if_true] at hcall
      obtain ⟨rfl, rfl⟩ := Prod.mk.inj hcall
      refine h.silent (by simpa [hmedia] using hrelayed) (fun call hc => ?_) ⟨rfl, rfl⟩
        fun hp => ⟨hp, fun call hc => ?_⟩
      · exact absurd hc List.not_mem_nil
      · exact absurd hc List.not_mem_nil
  | true =>
      simp only [hmedia, if_true] at hrelayed
      cases hpublishing : p.publishing with
      | true =>
          simp only [relayMessage, hmedia, hpublishing, Bool.not_true, Bool.false_eq_true, if_false,
            if_true] at hcall
          obtain ⟨rfl, rfl⟩ := Prod.mk.inj hcall
          obtain ⟨hempty, hforce⟩ := h.publishing hpublishing
          have hcreate : ∀ call ∈ [ClientCall.sendMessage msg], ¬ IsCreate call := by
            simp [IsCreate]
          refine ⟨h.accounted, fun _ => ⟨hempty, ?_⟩, ?_, fun _ => ?_, ?_⟩
          · rw [Machine.outputs_snoc]
            exact hforce.append hcreate
          · have hsub := h.sublist
            rw [hempty, List.append_nil] at hsub
            rw [Machine.outputs_snoc, handed_append, hempty, List.append_nil, hrelayed]
            exact hsub.append (List.Sublist.refl _)
          · rw [hempty]
            exact List.nil_suffix
          · rw [Machine.outputs_snoc]
            exact h.guarded.append_of_inForce hforce hcreate
      | false =>
          rw [h.accounted.relayMessage hmedia hpublishing] at hcall
          obtain ⟨rfl, rfl⟩ := Prod.mk.inj hcall
          refine ⟨rfl, fun hp => absurd (hpublishing.symm.trans hp) Bool.false_ne_true, ?_,
            fun hpolicy => ?_, ?_⟩
          · -- what is held back now was held back before, or is the message
            rw [Machine.outputs_snoc, List.append_nil, hrelayed]
            refine ((List.Sublist.refl _).append (holdBack_sublist _ _ _)).trans ?_
            rw [← List.append_assoc]
            exact h.sublist.append (List.Sublist.refl _)
          · obtain ⟨before, hbefore⟩ := h.suffix hpolicy
            rw [hrelayed, ← hbefore, List.append_assoc]
            exact (holdBack_suffix hpolicy _ _).trans (List.suffix_append _ _)
          · rw [Machine.outputs_snoc, List.append_nil]
            exact h.guarded

theorem InOrder.message (h : InOrder r.policy trace p) (stale : UInt64) (msg : Message)
    (hcall : handlePusherMessage p stale msg = (p', calls)) :
    InOrder r.policy (trace ++ [⟨p, .message stale msg, calls⟩]) p' := by
  have hrelayed : relayed (trace ++ [⟨p, .message stale msg, calls⟩]) = relayed trace :=
    (relayed_snoc trace p (.message stale msg) calls).trans (List.append_nil _)
  rcases handlePusherMessage_cases p stale msg with hnothing | hcreate | ⟨hpublishing, hpublish⟩
  · obtain ⟨rfl, rfl⟩ := Prod.mk.inj (hcall.symm.trans hnothing)
    exact h.silent hrelayed (by simp) ⟨rfl, rfl⟩ fun hp => ⟨hp, by simp⟩
  · obtain ⟨rfl, rfl⟩ := Prod.mk.inj (hcall.symm.trans hcreate)
    exact h.silent hrelayed (by simp [IsMediaSend]) ⟨rfl, rfl⟩ fun hp => ⟨hp, by simp [IsCreate]⟩
  · obtain ⟨rfl, rfl⟩ := Prod.mk.inj (hcall.symm.trans hpublish)
    -- the command opens the permission, and everything that was held back is behind it
    have hopened : InForce IsPublish IsCreate
        (Machine.outputs trace ++ [.sendCommand (publishCmd p.streamId.stream)]) :=
      Machine.inForce_snoc.2 (.inl ⟨_, rfl⟩)
    have hcreate : ∀ call ∈ ClientCall.flush :: p.buffer.map .sendMessage, ¬ IsCreate call := by
      simp [IsCreate]
    have hsend : ∀ call ∈ [ClientCall.sendCommand (publishCmd p.streamId.stream)],
        ¬ IsMediaSend call := by
      simp [IsMediaSend]
    have hguarded := h.guarded.append_of_not_uses hsend
    have houtputs : Machine.outputs (trace ++ [⟨p, .message stale msg,
          .sendCommand (publishCmd p.streamId.stream) :: .flush ::
            p.buffer.map .sendMessage⟩]) =
        (Machine.outputs trace ++ [.sendCommand (publishCmd p.streamId.stream)]) ++
          (.flush :: p.buffer.map .sendMessage) := by
      rw [Machine.outputs_snoc, List.append_assoc]
      rfl
    refine ⟨rfl, fun _ => ⟨rfl, ?_⟩, ?_, fun _ => List.nil_suffix, ?_⟩
    · rw [houtputs]
      exact hopened.append hcreate
    · have hhanded : handed (.sendCommand (publishCmd p.streamId.stream) :: .flush ::
          p.buffer.map .sendMessage) = p.buffer := handed_sendMessage p.buffer
      rw [Machine.outputs_snoc, handed_append, hhanded, List.append_nil, hrelayed]
      exact h.sublist
    · rw [houtputs]
      exact hguarded.append_of_inForce hopened hcreate

/-- **Every event keeps the invariant.** -/
theorem InOrder.handle (h : InOrder r.policy trace p) (event : PusherEvent)
    (hcall : p.handle r event = (p', calls)) :
    InOrder r.policy (trace ++ [⟨p, event, calls⟩]) p' := by
  cases event with
  | relay msg => exact h.relay msg hcall
  | connected =>
      obtain ⟨rfl, rfl⟩ := Prod.mk.inj hcall
      refine h.silent ?_ (by simp [IsMediaSend]) ⟨rfl, rfl⟩ fun hp => ⟨hp, by simp [IsCreate]⟩
      exact (relayed_snoc ..).trans (List.append_nil _)
  | message stale msg => exact h.message stale msg hcall
  | disconnected resolve =>
      have hrelayed : relayed (trace ++ [⟨p, .disconnected resolve, calls⟩]) = relayed trace :=
        (relayed_snoc ..).trans (List.append_nil _)
      simp only [Pusher.handle, handlePusherDisconnected] at hcall
      split at hcall
      · obtain ⟨rfl, rfl⟩ := Prod.mk.inj hcall
        exact h.silent hrelayed (by simp [IsMediaSend]) ⟨rfl, rfl⟩ fun hp => by cases hp
      · obtain ⟨rfl, rfl⟩ := Prod.mk.inj hcall
        exact h.silent hrelayed (by simp [IsMediaSend]) ⟨rfl, rfl⟩ fun hp => by cases hp

theorem inOrder_of_run {streamId : StreamId}
    (hrun : Run (pusherMachine r) { streamId := streamId } trace p) : InOrder r.policy trace p :=
  hrun.invariant (P := fun _ => True) (I := InOrder r.policy) (fun _ _ => trivial)
    (.start r.policy streamId) fun _ h _ hstep => h.handle _ hstep

/-- **The queue of a pusher is accounted for and in order**, whatever the order in which media are
relayed, answers come from upstream and connections end.  The counter is the size of what is held
back; a pusher that publishes holds nothing back; with the policy `DropOldest` what is held back is
the end of what was relayed; what is handed over is a part of what was relayed, in the same order; and
nothing is handed over before the `publish` command of its connection. -/
theorem relay_queue {streamId : StreamId}
    (hrun : Run (pusherMachine r) { streamId := streamId } trace p) :
    p.pendingBytes = payloadBytes p.buffer ∧
      (p.publishing = true → p.buffer = [] ∧ p.pendingBytes = 0) ∧
      (r.policy.backpressure = .dropOldest → p.buffer <:+ relayed trace) ∧
      (handed (Machine.outputs trace)).Sublist (relayed trace) ∧
      Guarded IsMediaSend IsPublish IsCreate (Machine.outputs trace) := by
  have h := inOrder_of_run hrun
  refine ⟨h.accounted, fun hp => ?_, h.suffix, ?_, h.guarded⟩
  · have hempty := (h.publishing hp).1
    exact ⟨hempty, by rw [h.accounted, hempty, payloadBytes_nil]⟩
  · exact (List.sublist_append_left _ _).trans h.sublist

/-- The answer to `createStream`. -/
def createStreamResult : Message where
  typeId := MessageType.commandAMF0.code
  timestamp := 0
  streamId := 0
  payload := CommandMessage.encode ⟨ascii "_result", 0x4000000000000000, []⟩

/-- A message is held back, then the pusher may publish, then its connection ends. -/
theorem relay_queue_reconnect : ∃ (trace : List (Moment Pusher PusherEvent ClientCall)) (p : Pusher),
    Machine.inputs trace = [.relay ⟨8, 0, 1, [1, 2]⟩, .message 0 createStreamResult,
        .disconnected .ok] ∧
      p.pendingBytes = payloadBytes p.buffer ∧
      (handed (Machine.outputs trace)).Sublist [⟨8, 0, 1, [1, 2]⟩] ∧
      Guarded IsMediaSend IsPublish IsCreate (Machine.outputs trace) := by
  have hrun : Run (pusherMachine {}) { streamId := {} } _ _ := .snoc (.snoc (.snoc .nil
    (show Pusher.handle {} _ (.relay ⟨8, 0, 1, [1, 2]⟩) = _ from rfl))
    (show Pusher.handle {} _ (.message 0 createStreamResult) = _ from rfl))
    (show Pusher.handle {} _ (.disconnected .ok) = _ from rfl)
  obtain ⟨hpending, -, -, hsub, hguarded⟩ := relay_queue hrun
  exact ⟨_, _, rfl, hpending, hsub, hguarded⟩

end Relay
