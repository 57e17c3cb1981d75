/-
**What becomes of what is published.**

A manager holds one pusher for every stream id under which somebody has published.  Behind its last
creation, a pusher is a machine of its own within the manager: what its client calls back is for it, and
so is what a publisher sends that is ready under the stream id; nothing else reaches it, and nothing else
is asked of its client.  What is known of every run of a pusher is therefore known of each of the pushers
of a manager, whatever the other publishers and the other pushers do in between.

Nothing is lost but what does not fit: as long as everything that has been published fits into what a
pusher may hold back, all of it has been handed over or is held back.

Main definitions:

* `Relay.givenTo`, `Relay.callsTo` — what a step gives a pusher, and what it asks of its client;
* `Relay.pusherMoment`, `Relay.pusherRun` — the run of a pusher, in a run of the manager;
* `Relay.publishedAs` — the media that are published under a stream id;
* `Relay.HasPusher` — the manager has a pusher for a stream.

Main results:

* `Relay.pusher_idle`, `Relay.pusher_active` — a step of the manager, to a pusher;
* `Relay.projects_pusher` — a manager projects onto each of its pushers;
* `Relay.keeps_all` — what fits is not dropped;
* `Relay.pusher_of_run` — the run of a pusher, in a run of the manager;
* `Relay.published_kept` — **what is published under a stream id is handed over or held back, in order**.
-/

import RtmpTranscoder.Cascade
import RtmpTranscoder.Projection
import RtmpTranscoder.RelayModes

set_option relaxedAutoImplicit false
set_option autoImplicit false

namespace Relay

open Machine (Moment Run Projects)
open Rtmp (Failure Message MessageType)
open Text (ascii)

/-! ### The part of a step -/

/-- What a step of the manager gives the pusher of a stream: what its client calls back, or what a
publisher sends that is ready under the stream id. -/
def givenTo (streamId : StreamId) (m : Moment RelayManager RelayEvent RelayOutput) :
    Option PusherEvent :=
  match m.input with
  | .pusher streamId' event => if streamId' = streamId then some event else none
  | .message id _ msg =>
      if m.state.held id = some streamId ∧ msg.typeId ≠ MessageType.commandAMF0.code then
        some (.relay msg)
      else none
  | _ => none

/-- What the client of a pusher is asked. -/
def callsTo (streamId : StreamId) : RelayOutput → List ClientCall
  | .pusher streamId' calls => if streamId' = streamId then calls else []
  | .publisher _ (.relayed streamId' _ calls) => if streamId' = streamId then calls else []
  | .publisher _ _ => []

/-- A step of the manager, as one of the pusher of a stream. -/
def pusherMoment (streamId : StreamId) (m : Moment RelayManager RelayEvent RelayOutput) :
    Option (Moment Pusher PusherEvent ClientCall) :=
  (m.state.pushers streamId).bind fun p =>
    (givenTo streamId m).map fun event => ⟨p, event, m.outputs.flatMap (callsTo streamId)⟩

/-- The run of the pusher of a stream. -/
def pusherRun (streamId : StreamId) (trace : List (Moment RelayManager RelayEvent RelayOutput)) :
    List (Moment Pusher PusherEvent ClientCall) :=
  trace.filterMap (pusherMoment streamId)

/-- The media that a step publishes under a stream id. -/
def publishedBy (streamId : StreamId) (m : Moment RelayManager RelayEvent RelayOutput) :
    Option Message :=
  match m.input with
  | .message id _ msg =>
      if m.state.held id = some streamId ∧ isMedia msg = true then some msg else none
  | _ => none

/-- The media that are published under a stream id. -/
def publishedAs (streamId : StreamId) (trace : List (Moment RelayManager RelayEvent RelayOutput)) :
    List Message :=
  trace.filterMap (publishedBy streamId)

/-- The manager has a pusher for a stream, and no transcoder. -/
structure HasPusher (settings : RelaySettings) (streamId : StreamId) (m : RelayManager) (p : Pusher) :
    Prop where
  stored : m.pushers streamId = some p
  settings : m.toRelaySettings = settings
  transcoder : m.transcoder = false

/-- A step does not create the pusher of a stream. -/
def KeepsPusher (streamId : StreamId) (m : Moment RelayManager RelayEvent RelayOutput) : Prop :=
  ∀ e ∈ m.outputs, ∀ id, ¬ CreatedBy id streamId e

variable {r r' : Relays} {pub pub' : Publisher} {o : CallOutcome} {msg : Message}
  {out : List PublisherEvent} {m m' : RelayManager} {i : RelayEvent} {log : List RelayOutput}
  {settings : RelaySettings} {streamId : StreamId} {p : Pusher}

/-! ### What a handler does for the pushers -/

/-- Media of a publisher that is ready are handed on; everything else is answered, if it is, and may
publish a stream. -/
theorem handled_cases (h : handlePublisherMessage r pub o msg = .ok (r', pub', out)) :
    (msg.typeId ≠ MessageType.commandAMF0.code ∧ pub.ready = true ∧
        handlePublisherMedia r pub msg = (r', out)) ∨
      ((msg.typeId ≠ MessageType.commandAMF0.code → pub.ready = false) ∧
        ∃ answer, (∀ e ∈ answer, e.IsChunks) ∧ ((r' = r ∧ out = answer) ∨
          ∃ streamId' started, startRelaying r o streamId' = .ok (r', started) ∧
            out = answer ++ started)) := by
  unfold handlePublisherMessage at h
  split at h
  · rename_i htype
    refine .inr ⟨fun hne => absurd htype hne, ?_⟩
    split at h
    · obtain ⟨rfl, -, rfl⟩ := ok_inj h
      exact ⟨[], fun _ he => absurd he List.not_mem_nil, .inl ⟨rfl, rfl⟩⟩
    · rcases handlePublisherCommand_cases h with ⟨-, rfl, hrespond⟩ | ⟨-, -, rfl, hrespond⟩ |
        ⟨-, -, -, stream, answer, started, -, hrespond, hstart, rfl⟩ | ⟨-, -, -, rfl, -, rfl⟩
      · obtain ⟨-, -, hout⟩ := respond_ok hrespond
        exact ⟨out, hout, .inl ⟨rfl, rfl⟩⟩
      · obtain ⟨-, -, hout⟩ := respond_ok hrespond
        exact ⟨out, hout, .inl ⟨rfl, rfl⟩⟩
      · obtain ⟨-, -, hout⟩ := respond_ok hrespond
        exact ⟨answer, hout, .inr ⟨_, started, hstart, rfl⟩⟩
      · exact ⟨[], fun _ he => absurd he List.not_mem_nil, .inl ⟨rfl, rfl⟩⟩
  · rename_i htype
    split at h
    · rename_i hready
      obtain ⟨rfl, rfl, rfl⟩ := ok_inj h
      exact .inl ⟨htype, hready, rfl⟩
    · rename_i hready
      obtain ⟨rfl, rfl, rfl⟩ := ok_inj h
      exact .inr ⟨fun _ => Bool.eq_false_iff.2 hready, [], fun _ he => absurd he List.not_mem_nil,
        .inl ⟨rfl, rfl⟩⟩

theorem settings_step (h : MessageStep m i log m') : m'.toRelaySettings = m.toRelaySettings := by
  cases h with
  | accept growth => rfl
  | transport session hpub hevents => rfl
  | @message id pub pub' o msg r events hpub hmessage =>
      change r.toRelaySettings = m.toRelaySettings
      rcases handled_cases hmessage with
        ⟨-, -, hmedia⟩ | ⟨-, answer, -, ⟨rfl, -⟩ | ⟨streamId', started, hstart, -⟩⟩
      · rcases handlePublisherMedia_cases m.toRelays pub msg with
          ⟨calls, heq⟩ | ⟨p, p', calls, -, heq⟩
        · obtain ⟨rfl, -⟩ := Prod.mk.inj (hmedia.symm.trans heq)
          rfl
        · obtain ⟨rfl, -⟩ := Prod.mk.inj (hmedia.symm.trans heq)
          rfl
      · rfl
      · rcases startRelaying_cases hstart with ⟨calls, rfl, -, -⟩ | ⟨p, calls, -, -, -, rfl, -⟩
        · rfl
        · rfl
  | remove hpub => rfl
  | @pusher streamId event hcallback =>
      unfold RelayManager.onPusher
      split
      · rfl
      · rfl

/-- What happens on a connection, but for media that are handed on, is nothing to the clients of
pushers. -/
theorem callsTo_publisher {events : List PublisherEvent} (id : ℕ)
    (h : ∀ e ∈ events, ∀ streamId' msg calls, e ≠ .relayed streamId' msg calls) :
    (events.map (RelayOutput.publisher id)).flatMap (callsTo streamId) = [] := by
  refine List.flatMap_eq_nil_iff.2 fun e he => ?_
  obtain ⟨event, hevent, rfl⟩ := List.mem_map.1 he
  cases event with
  | relayed streamId' msg calls => exact absurd rfl (h _ hevent streamId' msg calls)
  | _ => rfl

theorem PublisherEvent.IsChunks.not_relayed {e : PublisherEvent} (h : e.IsChunks) (streamId' : StreamId)
    (msg : Message) (calls : List ClientCall) : e ≠ .relayed streamId' msg calls := by
  obtain ⟨data, rfl⟩ := h
  exact fun heq => PublisherEvent.noConfusion heq

/-- What `publish` does besides creating a pusher. -/
theorem startRelaying_not_relayed {streamId' : StreamId} {started : List PublisherEvent}
    (h : startRelaying r o streamId' = .ok (r', started)) :
    ∀ e ∈ started, ∀ id msg calls, e ≠ .relayed id msg calls := by
  rintro e he id msg calls rfl
  rcases startRelaying_cases h with ⟨calls', -, rfl, -⟩ | ⟨p, calls', -, -, -, -, rfl⟩
  · simp at he
  · simp at he

/-- A publisher is ready under a stream id exactly if it holds it. -/
theorem held_eq_some {id : ℕ} (hpub : m.publishers id = some pub) :
    m.held id = some streamId ↔ pub.ready = true ∧ pub.streamId = streamId := by
  rw [RelayManager.held_of_publishers hpub]
  cases pub.ready with
  | true => simp
  | false => simp

/-- `publish` under another stream id, or one that creates nothing, leaves a pusher alone. -/
theorem startRelaying_pushers {streamId' : StreamId} {started : List PublisherEvent}
    (hstart : startRelaying r o streamId' = .ok (r', started))
    (h : ∀ calls, .published streamId (some calls) ∉ started) :
    r'.pushers streamId = r.pushers streamId := by
  rcases startRelaying_cases hstart with ⟨calls, rfl, -, -⟩ | ⟨p, calls, -, -, -, rfl, rfl⟩
  · rfl
  · have hne : streamId ≠ streamId' := by
      rintro rfl
      exact h calls (List.mem_singleton_self _)
    exact Function.update_of_ne hne _ _

/-! ### A step -/

/-- **A step that gives a pusher nothing leaves it alone**, and its client too. -/
theorem pusher_idle (h : MessageStep m i log m') (hhas : HasPusher settings streamId m p)
    (hkeeps : KeepsPusher streamId ⟨m, i, log⟩) (hgiven : givenTo streamId ⟨m, i, log⟩ = none) :
    m'.pushers streamId = some p ∧ log.flatMap (callsTo streamId) = [] := by
  cases h with
  | accept growth => exact ⟨hhas.stored, rfl⟩
  | @transport id pub session events hpub hevents =>
      refine ⟨hhas.stored, callsTo_publisher id fun e he streamId' msg calls heq => ?_⟩
      have htransport := hevents e he
      rw [heq] at htransport
      exact htransport
  | @message id pub pub' o msg r events hpub hmessage =>
      change r.pushers streamId = some p ∧
        ((PublisherEvent.message msg :: events).map (RelayOutput.publisher id)).flatMap
          (callsTo streamId) = []
      rw [List.map_cons, List.flatMap_cons]
      change r.pushers streamId = some p ∧
        (events.map (RelayOutput.publisher id)).flatMap (callsTo streamId) = []
      have hnot (calls : List ClientCall) : .published streamId (some calls) ∉ events := fun hmem =>
        hkeeps _ (List.mem_map_of_mem (List.mem_cons_of_mem _ hmem)) id ⟨calls, rfl⟩
      rcases handled_cases hmessage with ⟨htype, hready, hmedia⟩ |
        ⟨-, answer, hanswer, ⟨rfl, rfl⟩ | ⟨streamId', started, hstart, rfl⟩⟩
      · -- media of another stream
        have hne : pub.streamId ≠ streamId := by
          intro heq
          have hheld := (held_eq_some hpub).2 ⟨hready, heq⟩
          simp only [givenTo, hheld, htype, ne_eq, not_false_eq_true, and_self, if_true,
            reduceCtorEq] at hgiven
        simp only [handlePublisherMedia, hhas.transcoder, Bool.false_eq_true, if_false] at hmedia
        split at hmedia
        · obtain ⟨rfl, rfl⟩ := Prod.mk.inj hmedia
          exact ⟨hhas.stored, rfl⟩
        · obtain ⟨rfl, rfl⟩ := Prod.mk.inj hmedia
          refine ⟨(Function.update_of_ne hne.symm _ _).trans hhas.stored, ?_⟩
          simp only [List.map_cons, List.map_nil, List.flatMap_cons, List.flatMap_nil, callsTo,
            if_neg hne, List.append_nil]
      · exact ⟨hhas.stored, callsTo_publisher id fun e he => (hanswer e he).not_relayed⟩
      · refine ⟨?_, callsTo_publisher id fun e he => ?_⟩
        · rw [startRelaying_pushers hstart fun calls hmem => hnot calls (List.mem_append_right _ hmem)]
          exact hhas.stored
        · rcases List.mem_append.1 he with he | he
          · exact (hanswer e he).not_relayed
          · exact startRelaying_not_relayed hstart e he
  | remove hpub => exact ⟨hhas.stored, rfl⟩
  | @pusher streamId' event hcallback =>
      have hne : streamId' ≠ streamId := by
        rintro rfl
        simp [givenTo] at hgiven
      unfold RelayManager.onPusher
      split
      · exact ⟨hhas.stored, rfl⟩
      · refine ⟨(Function.update_of_ne hne.symm _ _).trans hhas.stored, ?_⟩
        simp only [List.flatMap_cons, List.flatMap_nil, callsTo, if_neg hne, List.append_nil]

/-- **A step that gives a pusher something is a step of it**, and all that it asks of the client. -/
theorem pusher_active (h : MessageStep m i log m') (hhas : HasPusher settings streamId m p)
    {event : PusherEvent} (hgiven : givenTo streamId ⟨m, i, log⟩ = some event) :
    ∃ p', p.handle settings event = (p', log.flatMap (callsTo streamId)) ∧
      m'.pushers streamId = some p' := by
  cases h with
  | accept growth => cases hgiven
  | transport session hpub hevents => cases hgiven
  | @message id pub pub' o msg r events hpub hmessage =>
      simp only [givenTo] at hgiven
      split at hgiven
      · rename_i hcond
        obtain ⟨hheld, htype⟩ := hcond
        obtain rfl := Option.some.inj hgiven
        obtain ⟨hready, rfl⟩ := (held_eq_some hpub).1 hheld
        rcases handled_cases hmessage with ⟨-, -, hmedia⟩ | ⟨hnot, -⟩
        · simp only [handlePublisherMedia, hhas.transcoder, Bool.false_eq_true, if_false,
            hhas.stored] at hmedia
          obtain ⟨rfl, rfl⟩ := Prod.mk.inj hmedia
          refine ⟨(relayMessage m.policy p msg).1, ?_, Function.update_self _ _ _⟩
          rw [← hhas.settings]
          simp only [Pusher.handle, List.map_cons, List.map_nil, List.flatMap_cons,
            List.flatMap_nil, callsTo, if_true, List.append_nil, List.nil_append]
        · rw [hnot htype] at hready
          cases hready
      · cases hgiven
  | remove hpub => cases hgiven
  | @pusher streamId' event' hcallback =>
      simp only [givenTo] at hgiven
      split at hgiven
      · rename_i hsame
        subst hsame
        obtain rfl := Option.some.inj hgiven
        rw [RelayManager.onPusher, hhas.stored]
        refine ⟨(p.handle settings event').1, ?_, ?_⟩
        · simp only [List.flatMap_cons, List.flatMap_nil, callsTo, if_true, List.append_nil,
            hhas.settings]
        · simp only [hhas.settings, Function.update_self]
      · cases hgiven

/-- **A manager projects onto each of its pushers**, as long as it is not created anew. -/
theorem projects_pusher (settings : RelaySettings) (streamId : StreamId) :
    Projects MessageStep (pusherMachine settings) (KeepsPusher streamId)
      (HasPusher settings streamId) (pusherMoment streamId) where
  idle {m i log m' p} hhas hkeeps hstep hnone := by
    have hgiven : givenTo streamId ⟨m, i, log⟩ = none := by
      simpa [pusherMoment, hhas.stored] using hnone
    obtain ⟨hstored, -⟩ := pusher_idle hstep hhas hkeeps hgiven
    exact ⟨hstored, (settings_step hstep).trans hhas.settings,
      (confined_step hstep).transcoder.trans hhas.transcoder⟩
  active {m i log m' p moment} hhas _ hstep hsome := by
    simp only [pusherMoment, hhas.stored, Option.bind_some, Option.map_eq_some_iff] at hsome
    obtain ⟨event, hgiven, rfl⟩ := hsome
    obtain ⟨p', hcall, hstored⟩ := pusher_active hstep hhas hgiven
    exact ⟨rfl, p', hcall, hstored, (settings_step hstep).trans hhas.settings,
      (confined_step hstep).transcoder.trans hhas.transcoder⟩

/-! ### What fits -/

section Pusher

variable {r : RelaySettings} {p₀ p : Pusher} {trace : List (Moment Pusher PusherEvent ClientCall)}

/-- **What fits is not dropped**: all that a pusher has been given has been handed over, or is held
back. -/
theorem keeps_all {streamId : StreamId} (hrun : Run (pusherMachine r) { streamId := streamId } trace p)
    (hfits : payloadBytes (relayed trace) ≤ r.policy.maxPendingBytes) :
    handed (Machine.outputs trace) ++ p.buffer = relayed trace := by
  induction hrun with
  | nil => rfl
  | @snoc trace p p' event calls hrun hstep ih =>
      have hsnoc := relayed_snoc trace p event calls
      have hbefore : payloadBytes (relayed trace) ≤ r.policy.maxPendingBytes := by
        rw [hsnoc, payloadBytes_append] at hfits
        omega
      have ih := ih hbefore
      have horder := inOrder_of_run hrun
      rw [Machine.outputs_snoc, handed_append]
      -- with nothing handed over and nothing given, the queue is what it was
      have hquiet (hgiven : relayed (trace ++ [⟨p, event, calls⟩]) = relayed trace)
          (hcalls : handed calls = []) (hbuffer : p'.buffer = p.buffer) :
          handed (Machine.outputs trace) ++ handed calls ++ p'.buffer =
            relayed (trace ++ [⟨p, event, calls⟩]) := by
        rw [hgiven, hcalls, List.append_nil, hbuffer, ih]
      cases event with
      | relay msg =>
          have hcall : relayMessage r.policy p msg = (p', calls) := hstep
          cases hmedia : isMedia msg with
          | false =>
              simp only [relayMessage, hmedia, Bool.not_false, if_true] at hcall
              obtain ⟨rfl, rfl⟩ := Prod.mk.inj hcall
              exact hquiet (by simpa [hmedia] using hsnoc) rfl rfl
          | true =>
              simp only [hmedia, if_true] at hsnoc
              rw [hsnoc]
              cases hpublishing : p.publishing with
              | true =>
                  simp only [relayMessage, hmedia, hpublishing, Bool.not_true, Bool.false_eq_true,
                    if_false, if_true] at hcall
                  obtain ⟨rfl, rfl⟩ := Prod.mk.inj hcall
                  have hempty := (horder.publishing hpublishing).1
                  rw [hempty, List.append_nil] at ih ⊢
                  rw [ih]
                  rfl
              | false =>
                  -- the message fits behind what is held back
                  have hroom : payloadBytes p.buffer + msg.payload.length ≤
                      r.policy.maxPendingBytes := by
                    rw [hsnoc, ← ih] at hfits
                    simp only [payloadBytes_append, payloadBytes_cons, payloadBytes_nil] at hfits
                    omega
                  have hheld : holdBack r.policy p.buffer msg = p.buffer ++ [msg] := if_pos hroom
                  rw [horder.accounted.relayMessage hmedia hpublishing, hheld] at hcall
                  obtain ⟨rfl, rfl⟩ := Prod.mk.inj hcall
                  change handed (Machine.outputs trace) ++ [] ++ (p.buffer ++ [msg]) = _
                  rw [List.append_nil, ← List.append_assoc, ih]
      | connected =>
          obtain ⟨rfl, rfl⟩ := Prod.mk.inj hstep
          exact hquiet (hsnoc.trans (List.append_nil _)) rfl rfl
      | message stale msg =>
          have hcall : handlePusherMessage p stale msg = (p', calls) := hstep
          have hgiven := hsnoc.trans (List.append_nil _)
          rcases handlePusherMessage_cases p stale msg with hnothing | hcreate | ⟨-, hpublish⟩
          · obtain ⟨rfl, rfl⟩ := Prod.mk.inj (hcall.symm.trans hnothing)
            exact hquiet hgiven rfl rfl
          · obtain ⟨rfl, rfl⟩ := Prod.mk.inj (hcall.symm.trans hcreate)
            exact hquiet hgiven rfl rfl
          · obtain ⟨rfl, rfl⟩ := Prod.mk.inj (hcall.symm.trans hpublish)
            change handed (Machine.outputs trace) ++ handed (p.buffer.map .sendMessage) ++ [] = _
            rw [handed_sendMessage, List.append_nil, ih, hgiven]
      | disconnected resolve =>
          have hcall : handlePusherDisconnected r resolve p = (p', calls) := hstep
          have hgiven := hsnoc.trans (List.append_nil _)
          simp only [handlePusherDisconnected] at hcall
          split at hcall
          · obtain ⟨rfl, rfl⟩ := Prod.mk.inj hcall
            exact hquiet hgiven rfl rfl
          · obtain ⟨rfl, rfl⟩ := Prod.mk.inj hcall
            exact hquiet hgiven rfl rfl

end Pusher

/-! ### A run -/

section Manager

variable {transcoder : Bool} {m₀ : RelayManager} {p₀ : Pusher}
  {trace : List (Moment RelayManager RelayEvent RelayOutput)}

/-- A pusher is there only without a transcoder, under the settings that the manager was given. -/
theorem hasPusher_of_run (hrun : Run MessageStep (RelayManager.new settings transcoder) trace m)
    (hstored : m.pushers streamId = some p) : HasPusher settings streamId m p := by
  have hall : m.toRelaySettings = settings ∧ m.transcoder = transcoder ∧
      (transcoder = true → Pushless m.toRelays) := by
    refine hrun.invariant (P := fun _ => True)
      (I := fun _ m => m.toRelaySettings = settings ∧ m.transcoder = transcoder ∧
        (transcoder = true → Pushless m.toRelays))
      (fun _ _ => trivial) ⟨rfl, rfl, fun htrue => ⟨.inl htrue, fun _ => rfl⟩⟩ ?_
    intro trace m i out m' _ hsofar _ hstep
    obtain ⟨hsettings, htranscoder, hpushless⟩ := hsofar
    have hconfined := confined_step hstep
    exact ⟨(settings_step hstep).trans hsettings, hconfined.transcoder.trans htranscoder,
      fun htrue => (hconfined.pushless (hpushless htrue)).1⟩
  obtain ⟨hsettings, rfl, hpushless⟩ := hall
  refine ⟨hstored, hsettings, Bool.eq_false_iff.2 fun htrue => ?_⟩
  rw [(hpushless htrue).pushers streamId] at hstored
  cases hstored

theorem pushers_of_created (h : MessageStep m i log m')
    (hcreated : ∃ id, ∃ e ∈ log, CreatedBy id streamId e) :
    m'.pushers streamId = some { streamId := streamId } := by
  obtain ⟨id, e, he, calls, rfl⟩ := hcreated
  cases h with
  | accept growth => cases he
  | transport session hpub hevents =>
      obtain ⟨event, hevent, heq⟩ := List.mem_map.1 he
      obtain ⟨-, rfl⟩ := RelayOutput.publisher.inj heq
      exact (hevents _ hevent).elim
  | @message id' pub pub' o msg r events hpub hmessage =>
      obtain ⟨event, hevent, heq⟩ := List.mem_map.1 he
      obtain ⟨rfl, rfl⟩ := RelayOutput.publisher.inj heq
      rcases List.mem_cons.1 hevent with hfirst | hevent
      · cases hfirst
      change r.pushers streamId = some { streamId := streamId }
      rcases handled_cases hmessage with ⟨-, -, hmedia⟩ |
        ⟨-, answer, hanswer, ⟨rfl, rfl⟩ | ⟨streamId', started, hstart, rfl⟩⟩
      · rcases handlePublisherMedia_cases m.toRelays pub msg with
          ⟨calls', heq⟩ | ⟨p, p', calls', -, heq⟩
        · obtain ⟨-, rfl⟩ := Prod.mk.inj (hmedia.symm.trans heq)
          simp at hevent
        · obtain ⟨-, rfl⟩ := Prod.mk.inj (hmedia.symm.trans heq)
          simp at hevent
      · exact absurd hevent (not_mem_published_of_isChunks hanswer _ _)
      · rcases List.mem_append.1 hevent with hevent | hevent
        · exact absurd hevent (not_mem_published_of_isChunks hanswer _ _)
        · rcases startRelaying_cases hstart with
            ⟨calls', rfl, rfl, -⟩ | ⟨p, calls', hcreate, -, -, rfl, rfl⟩
          · simp at hevent
          · obtain ⟨rfl, -⟩ := PublisherEvent.published.inj (List.mem_singleton.1 hevent)
            unfold createPusher at hcreate
            split at hcreate
            · cases hcreate
            · split at hcreate
              · cases hcreate
              · obtain ⟨rfl, -⟩ := Prod.mk.inj (Option.some.inj hcreate)
                exact Function.update_self _ _ _
  | remove hpub => simp at he
  | @pusher streamId' event hcallback => exact ((onPusher_outputs m streamId' event _ he).1).elim

/-- A pusher that is there has been created, and not been created anew since. -/
theorem exists_creation (hrun : Run MessageStep (RelayManager.new settings transcoder) trace m)
    (hsome : (m.pushers streamId).isSome = true) : ∃ before creation after,
      trace = before ++ creation :: after ∧ (∃ id, creation.Emits (CreatedBy id streamId)) ∧
        ∀ m' ∈ after, KeepsPusher streamId m' := by
  induction hrun with
  | nil => cases hsome
  | @snoc trace m m' i out _ hstep ih =>
      by_cases hcreated : ∃ id, ∃ e ∈ out, CreatedBy id streamId e
      · exact ⟨trace, ⟨m, i, out⟩, [], rfl, hcreated, fun _ hm => absurd hm List.not_mem_nil⟩
      · have hbefore := (((pushers_step hstep).2 streamId).1 hsome).resolve_right hcreated
        obtain ⟨before, creation, after, rfl, hcreation, hkeeps⟩ := ih hbefore
        refine ⟨before, creation, after ++ [⟨m, i, out⟩], by simp, hcreation, fun m' hm' => ?_⟩
        rcases List.mem_append.1 hm' with hold | hnew
        · exact hkeeps m' hold
        · obtain rfl := List.mem_singleton.1 hnew
          exact fun e he id hcreated' => hcreated ⟨id, e, he, hcreated'⟩

/-- What a pusher is given to relay are the media that are published under its stream id. -/
theorem relayed_pusherRun (hrun : Run MessageStep m₀ trace m)
    (hthere : ∀ m' ∈ trace, (m'.state.pushers streamId).isSome = true) :
    relayed (pusherRun streamId trace) = publishedAs streamId trace := by
  simp only [relayed, Machine.inputs, pusherRun, List.filterMap_map, List.filterMap_filterMap]
  refine List.filterMap_congr fun m' hm' => ?_
  obtain ⟨p, hp⟩ := Option.isSome_iff_exists.1 (hthere m' hm')
  obtain ⟨m₁, hstep⟩ := hrun.step_of_mem hm'
  rw [pusherMoment, hp, Option.bind_some]
  unfold givenTo publishedBy
  cases hinput : m'.input with
  | message id o msg =>
      simp only
      by_cases hheld : m'.state.held id = some streamId
      · cases hmedia : isMedia msg with
        | true => simp [hheld, hmedia, Cascade.typeId_of_isMedia hmedia]
        | false =>
            by_cases htype : msg.typeId = MessageType.commandAMF0.code
            · simp [hheld, htype]
            · simp [hheld, hmedia, htype]
      · simp [hheld]
  | pusher streamId' event =>
      -- what a client calls back is not media to be relayed
      rw [hinput] at hstep
      generalize hout : m'.outputs = out at hstep
      cases hstep with
      | pusher hcallback =>
          cases event with
          | relay msg => exact hcallback.elim
          | _ => by_cases hsame : streamId' = streamId <;> simp [hsame]
  | _ => rfl

/-- What the client of a pusher is asked, it is asked by the pusher. -/
theorem outputs_pusherRun (hrun : Run MessageStep m₀ trace m) (h₀ : HasPusher settings streamId m₀ p₀)
    (hkeeps : ∀ m' ∈ trace, KeepsPusher streamId m') :
    Machine.outputs (pusherRun streamId trace) =
      (Machine.outputs trace).flatMap (callsTo streamId) := by
  induction hrun with
  | nil => rfl
  | @snoc trace m m' i log hrun hstep ih =>
      have hbefore := fun m' hm' => hkeeps m' (List.mem_append_left _ hm')
      have hlast := hkeeps _ (List.mem_append_right _ (List.mem_singleton_self _))
      obtain ⟨p, -, hhas⟩ := hrun.project (projects_pusher settings streamId) hbefore h₀
      rw [pusherRun, Machine.filterMap_snoc, Machine.outputs_append, Machine.outputs_snoc,
        List.flatMap_append, ← ih hbefore]
      refine congrArg (Machine.outputs (pusherRun streamId trace) ++ ·) ?_
      rw [pusherMoment, hhas.stored, Option.bind_some]
      cases hgiven : givenTo streamId ⟨m, i, log⟩ with
      | none =>
          rw [(pusher_idle hstep hhas hlast hgiven).2]
          rfl
      | some event => exact List.append_nil _

/-- **Behind its creation, a pusher is a machine of its own**: it is given what is published under its
stream id, and its client is asked nothing else. -/
theorem pusher_of_run (hrun : Run MessageStep m₀ trace m) (h₀ : HasPusher settings streamId m₀ p₀)
    (hkeeps : ∀ m' ∈ trace, KeepsPusher streamId m') : ∃ p, HasPusher settings streamId m p ∧
      Run (pusherMachine settings) p₀ (pusherRun streamId trace) p ∧
      relayed (pusherRun streamId trace) = publishedAs streamId trace ∧
      Machine.outputs (pusherRun streamId trace) =
        (Machine.outputs trace).flatMap (callsTo streamId) := by
  have hprojects := projects_pusher settings streamId
  obtain ⟨p, hlife, hhas⟩ := hrun.project hprojects hkeeps h₀
  refine ⟨p, hhas, hlife, relayed_pusherRun hrun fun m' hm' => ?_, outputs_pusherRun hrun h₀ hkeeps⟩
  obtain ⟨p', hp'⟩ := hrun.projected hprojects hkeeps h₀ m' hm'
  exact Option.isSome_of_mem hp'.stored

/-- **What is published under a stream id is handed over or held back, in order.**  The pusher that is
there has been created by a `publish`, and not anew since.  What it has handed to its client since then,
and behind it what it holds back, is a part of what has been published under its stream id, and all of
it, if it fits; nothing has been handed over before the `publish` of its connection. -/
theorem published_kept (hrun : Run MessageStep (RelayManager.new settings transcoder) trace m)
    (hpusher : m.pushers streamId = some p) : ∃ before creation after,
      trace = before ++ creation :: after ∧ (∃ id, creation.Emits (CreatedBy id streamId)) ∧
      (∀ m' ∈ after, KeepsPusher streamId m') ∧
      p.pendingBytes = payloadBytes p.buffer ∧ (p.publishing = true → p.buffer = []) ∧
      Machine.Guarded IsMediaSend IsPublish IsCreate
        ((Machine.outputs after).flatMap (callsTo streamId)) ∧
      (handed ((Machine.outputs after).flatMap (callsTo streamId)) ++ p.buffer).Sublist
        (publishedAs streamId after) ∧
      (payloadBytes (publishedAs streamId after) ≤ settings.policy.maxPendingBytes →
        handed ((Machine.outputs after).flatMap (callsTo streamId)) ++ p.buffer =
          publishedAs streamId after) := by
  obtain ⟨before, creation, after, rfl, hcreated, hkeeps⟩ :=
    exists_creation hrun (Option.isSome_of_mem hpusher)
  obtain ⟨hbefore, m₁, hstep, hafter⟩ := hrun.split
  have h₁ := hasPusher_of_run (hbefore.snoc hstep) (pushers_of_created hstep hcreated)
  obtain ⟨p', hhas, hlife, hgiven, hasked⟩ := pusher_of_run hafter h₁ hkeeps
  obtain rfl := Option.some.inj (hpusher.symm.trans hhas.stored)
  have horder := inOrder_of_run hlife
  refine ⟨before, creation, after, rfl, hcreated, hkeeps, horder.accounted,
    fun hpublishing => (horder.publishing hpublishing).1, ?_, ?_, fun hfits => ?_⟩
  · rw [← hasked]
    exact horder.guarded
  · rw [← hasked, ← hgiven]
    exact horder.sublist
  · rw [← hasked, ← hgiven]
    rw [← hgiven] at hfits
    exact keeps_all hlife hfits

/-- What is published as part of a run is published in it. -/
theorem payloadBytes_publishedAs_le (before : List (Moment RelayManager RelayEvent RelayOutput))
    (creation : Moment RelayManager RelayEvent RelayOutput)
    (after : List (Moment RelayManager RelayEvent RelayOutput)) :
    payloadBytes (publishedAs streamId after) ≤
      payloadBytes (publishedAs streamId (before ++ creation :: after)) := by
  have hsplit : publishedAs streamId (before ++ creation :: after) =
      publishedAs streamId (before ++ [creation]) ++ publishedAs streamId after := by
    rw [publishedAs, publishedAs, publishedAs, ← List.filterMap_append, List.append_assoc]
    rfl
  rw [hsplit, payloadBytes_append]
  omega

theorem exists_run_published : ∃ trace m,
    Run MessageStep (RelayManager.new pushSettings false) trace m ∧
      publishedAs sharedId trace = [⟨9, 0, 1, [0x17]⟩] ∧ (m.pushers sharedId).isSome = true := by
  obtain ⟨trace, hrun, -, haccept⟩ := exists_run_twoPublishers
  obtain ⟨silent, calls, p, pub, hpublish, -, -, hready, hstream⟩ :=
    @exists_publish_step 0 sharedId twoPublishers _ resolved (ascii "s") rfl sound_new (by decide) rfl
      rfl rfl createPusher_pushSettings
  have hstored := @RelayManager.withPusher_self sharedId twoPublishers p 0 pub
  have hsome := Option.isSome_of_mem hstored
  have hpusher : (twoPublishers.withPusher sharedId p 0 pub).pushers pub.streamId = some p := by
    rw [hstream]
    exact hstored
  have htype : (⟨9, 0, 1, [0x17]⟩ : Message).typeId ≠ MessageType.commandAMF0.code := by
    decide
  obtain ⟨calls', m', hmedia⟩ := exists_media_step resolved RelayManager.put_publishers_self hready rfl
    hpusher htype
  refine ⟨_, m', (hrun.snoc hpublish).snoc hmedia, ?_, ((pushers_step hmedia).2 sharedId).2 (.inl hsome)⟩
  -- two connections are accepted, the stream is published, and then the message
  have hquiet : trace.filterMap (publishedBy sharedId) = [] := by
    refine List.filterMap_eq_nil_iff.2 fun m hm => ?_
    rw [publishedBy, haccept m hm]
  have hheld : (twoPublishers.withPusher sharedId p 0 pub).held 0 = some sharedId :=
    (held_eq_some RelayManager.put_publishers_self).2 ⟨hready, hstream⟩
  rw [publishedAs, List.filterMap_append, List.filterMap_append, hquiet]
  have hcommand : isMedia (publishMessage (ascii "s")) = false := rfl
  have hvideo : isMedia ⟨9, 0, 1, [0x17]⟩ = true := rfl
  simp [publishedBy, hcommand, hvideo, hheld]

/-- A video message is published; it is handed over or held back. -/
theorem published_kept_single : ∃ trace m p before creation after,
    Run MessageStep (RelayManager.new pushSettings false) trace m ∧
      publishedAs sharedId trace = [⟨9, 0, 1, [0x17]⟩] ∧ m.pushers sharedId = some p ∧
      trace = before ++ creation :: after ∧
      handed ((Machine.outputs after).flatMap (callsTo sharedId)) ++ p.buffer =
        publishedAs sharedId after := by
  obtain ⟨trace, m, hrun, hpublished, hsome⟩ := exists_run_published
  obtain ⟨p, hp⟩ := Option.isSome_iff_exists.1 hsome
  obtain ⟨before, creation, after, hsplit, -, -, -, -, -, -, hall⟩ := published_kept hrun hp
  have hle : payloadBytes (publishedAs sharedId after) ≤
      payloadBytes (publishedAs sharedId (before ++ creation :: after)) :=
    payloadBytes_publishedAs_le before creation after
  rw [← hsplit, hpublished] at hle
  exact ⟨trace, m, p, before, creation, after, hrun, hpublished, hp, hsplit, hall (hle.trans (by decide))⟩

end Manager

end Relay
