/-
**How long a pusher lives.**

`publish` stores a pusher under the stream id of a publisher, and nothing ever takes one out again:
`RelayManager::remove_publisher` forgets the publisher only, and `handle_pusher_disconnected` replaces
the client of a pusher and connects it again.  So a stream id is in the map from its first `publish` on.
Who has created a pusher is ready under its stream id as long as it neither leaves nor sends another
`connect` or `publish`; after that the pusher is there without a publisher.

Main definitions:

* `Relay.GivesUp` — what a publisher may lose its stream id by;
* `Relay.reconnect` — what a new client is asked first;
* `Relay.Lifetime` — how long pushers are there, and how long their publishers are.

Main results:

* `Relay.pushers_step` — what a step does to the map;
* `Relay.pusher_lifetime` — **pushers stay, whether or not their publishers do**;
* `Relay.not_backed` — a pusher whose publisher has left.
-/

import RtmpTranscoder.PublisherIsolation

set_option relaxedAutoImplicit false
set_option autoImplicit false

namespace Relay

open Machine (Moment Run)
open Rtmp (Failure Message CommandMessage)
open Text (ascii)

/-- A publisher leaves, or sends a command by which its stream id may change. -/
def GivesUp (id : ℕ) (m : Moment RelayManager RelayEvent RelayOutput) : Prop :=
  m.input = .remove id ∨ ∃ o msg cmd, m.input = .message id o msg ∧ commandOf o msg = some cmd ∧
    (cmd.name = ascii "connect" ∨ cmd.name = ascii "publish")

/-- What the new client of a pusher is asked: to connect, if the URL leads somewhere. -/
def reconnect (r : RelaySettings) (resolve : List UInt8 → Except Failure (List UInt8))
    (streamId : StreamId) : List ClientCall :=
  match pushAddress r resolve streamId with
  | .error _ => []
  | .ok (host, port) => [.connect host port]

/-- What is known of the pushers after a run: which stream ids have one; how long the publisher that has
created one is ready under its stream id; that nothing becomes of them when a publisher leaves; and that
they connect again whenever their connection ends. -/
structure Lifetime (trace : List (Moment RelayManager RelayEvent RelayOutput)) (m : RelayManager) :
    Prop where
  created : ∀ streamId, (m.pushers streamId).isSome = true ↔
    ∃ id, ∃ e ∈ Machine.outputs trace, CreatedBy id streamId e
  held : ∀ before creation after id streamId, trace = before ++ creation :: after →
    creation.Emits (CreatedBy id streamId) → (∀ m' ∈ after, ¬ GivesUp id m') →
    m.held id = some streamId
  removed : ∀ before removal after id, trace = before ++ removal :: after →
    removal.input = .remove id → removal.outputs = [.publisher id .removed] ∧
      ∃ m₁, m₁.pushers = removal.state.pushers ∧ Run MessageStep m₁ after m
  reconnects : ∀ m' ∈ trace, ∀ streamId resolve, m'.input = .pusher streamId (.disconnected resolve) →
    (m'.state.pushers streamId).isSome = true → m'.outputs =
      [.pusher streamId (.create :: reconnect m'.state.toRelaySettings resolve streamId)]

variable {r r' : Relays} {pub pub' : Publisher} {o : CallOutcome} {msg : Message}
  {events : List PublisherEvent} {m m' : RelayManager} {id : ℕ} {streamId : StreamId}

/-! ### The map -/

/-- Every pusher is stored under its own stream id. -/
def Relays.Keyed (r : Relays) : Prop := ∀ streamId p, r.pushers streamId = some p → p.streamId = streamId

theorem Pusher.streamId_handle (settings : RelaySettings) (p : Pusher) (event : PusherEvent) :
    (p.handle settings event).1.streamId = p.streamId := by
  cases event with
  | relay msg =>
      simp only [Pusher.handle, relayMessage]
      split_ifs
      · rfl
      · rfl
      · split <;> rfl
      · rfl
  | connected => rfl
  | message stale msg =>
      rcases handlePusherMessage_cases p stale msg with hcase | hcase | ⟨-, hcase⟩
      · rw [Pusher.handle, hcase]
      · rw [Pusher.handle, hcase]
      · rw [Pusher.handle, hcase]
  | disconnected resolve =>
      simp only [Pusher.handle, handlePusherDisconnected]
      split <;> rfl

theorem createPusher_streamId {settings : RelaySettings}
    {resolve : List UInt8 → Except Failure (List UInt8)} {p : Pusher} {calls : List ClientCall}
    (h : createPusher settings resolve streamId = some (p, calls)) : p.streamId = streamId := by
  unfold createPusher at h
  split at h
  · cases h
  · split at h
    · cases h
    · obtain ⟨rfl, -⟩ := Prod.mk.inj (Option.some.inj h)
      rfl

theorem Relays.Keyed.update (h : r.Keyed) {p : Pusher} (hp : p.streamId = streamId) :
    Relays.Keyed { r with pushers := Function.update r.pushers streamId (some p) } := by
  intro streamId' p' hp'
  have hstored : Function.update r.pushers streamId (some p) streamId' = some p' := hp'
  by_cases hsame : streamId' = streamId
  · rw [hsame, Function.update_self] at hstored
    rw [← Option.some.inj hstored, hp, hsame]
  · rw [Function.update_of_ne hsame] at hstored
    exact h streamId' p' hstored

/-- What a handler does to the map: it stores the pusher that is created, and leaves every other where
it is. -/
structure Stores (r r' : Relays) (events : List PublisherEvent) : Prop where
  keyed : r.Keyed → r'.Keyed
  isSome : ∀ streamId, (r'.pushers streamId).isSome = true ↔ (r.pushers streamId).isSome = true ∨
    ∃ calls, .published streamId (some calls) ∈ events

theorem Stores.none (hevents : ∀ streamId calls, .published streamId (some calls) ∉ events) :
    Stores r r events := by
  refine ⟨fun h => h, fun streamId => ⟨.inl, ?_⟩⟩
  rintro (h | ⟨calls, hmem⟩)
  · exact h
  · exact absurd hmem (hevents streamId calls)

theorem not_mem_published_of_isChunks (h : ∀ e ∈ events, e.IsChunks) (streamId : StreamId)
    (created : Option (List ClientCall)) : .published streamId created ∉ events := by
  intro hmem
  obtain ⟨data, hdata⟩ := h _ hmem
  cases hdata

/-- `publish` stores the pusher that it creates. -/
theorem stores_startRelaying {started out : List PublisherEvent}
    (hstart : startRelaying r o streamId = .ok (r', started)) (hout : ∀ e ∈ out, e.IsChunks) :
    Stores r r' (out ++ started) := by
  rcases startRelaying_cases hstart with ⟨calls, rfl, rfl, -⟩ | ⟨p, calls, hcreate, -, -, rfl, rfl⟩
  · refine .none fun streamId' calls' hmem => ?_
    rcases List.mem_append.1 hmem with hmem | hmem
    · exact not_mem_published_of_isChunks hout _ _ hmem
    · simp at hmem
  · refine ⟨fun hkeyed => hkeyed.update (createPusher_streamId hcreate), fun streamId' => ?_⟩
    have hmem : (∃ calls', .published streamId' (some calls') ∈
        out ++ [PublisherEvent.published streamId (some calls)]) ↔ streamId' = streamId := by
      constructor
      · rintro ⟨calls', hmem⟩
        rcases List.mem_append.1 hmem with hmem | hmem
        · exact absurd hmem (not_mem_published_of_isChunks hout _ _)
        · cases List.mem_singleton.1 hmem
          rfl
      · rintro rfl
        exact ⟨calls, by simp⟩
    rw [hmem]
    by_cases hsame : streamId' = streamId
    · subst hsame
      simp
    · simp [hsame]

theorem stores_handlePublisherMedia (r : Relays) (pub : Publisher) (msg : Message) :
    Stores r (handlePublisherMedia r pub msg).1 (handlePublisherMedia r pub msg).2 := by
  unfold handlePublisherMedia
  split
  · exact .none (by simp)
  · cases hpusher : r.pushers pub.streamId with
    | none => exact .none (by simp)
    | some p =>
        refine ⟨fun hkeyed => hkeyed.update ?_, fun streamId => ?_⟩
        · exact (Pusher.streamId_handle r.toRelaySettings p (.relay msg)).trans (hkeyed _ p hpusher)
        · have hsame := isSome_update (p := (relayMessage r.policy p msg).1)
            (Option.isSome_of_mem hpusher) streamId
          simp [hsame]

theorem Effect.stores (h : Effect r pub o msg r' pub' events) : Stores r r' events := by
  cases h with
  | ignored => exact .none (by simp)
  | connect _ _ hout => exact .none fun streamId calls => not_mem_published_of_isChunks hout _ _
  | answered hout => exact .none fun streamId calls => not_mem_published_of_isChunks hout _ _
  | publish _ _ _ hout hstart => exact stores_startRelaying hstart hout
  | media _ => exact stores_handlePublisherMedia r pub msg

/-- **What a step does to the map**: it stores the pushers that are created, and takes none out. -/
theorem pushers_step {i : RelayEvent} {out : List RelayOutput} (h : MessageStep m i out m') :
    (m.Keyed → m'.Keyed) ∧ ∀ streamId, (m'.pushers streamId).isSome = true ↔
      (m.pushers streamId).isSome = true ∨ ∃ id, ∃ e ∈ out, CreatedBy id streamId e := by
  have hquiet {out : List RelayOutput} (hout : ∀ e ∈ out, ¬ e.IsPublished) (streamId : StreamId) :
      ¬ ∃ id, ∃ e ∈ out, CreatedBy id streamId e := by
    rintro ⟨id, e, he, hcreated⟩
    exact hout e he hcreated.isPublished
  cases h with
  | accept growth => exact ⟨fun hkeyed => hkeyed, by simp⟩
  | @transport id pub session events hpub hevents =>
      refine ⟨fun hkeyed => hkeyed, fun streamId => ?_⟩
      have hsilent := isQuiet_map (fun e he => (hevents e he).isSilent) id
      have hnone := hquiet (fun e he => (hsilent e he).not_isPublished) streamId
      rw [or_iff_left hnone]
      rfl
  | @message id pub pub' o msg r events hpub hmessage =>
      obtain ⟨hkeyed, hsome⟩ := (effect_of_ok hmessage).stores
      refine ⟨hkeyed, fun streamId => (hsome streamId).trans (or_congr_right ?_)⟩
      constructor
      · rintro ⟨calls, hmem⟩
        refine ⟨id, _, List.mem_map_of_mem (List.mem_cons_of_mem _ hmem), calls, rfl⟩
      · rintro ⟨id', e, he, calls, rfl⟩
        obtain ⟨event, hevent, heq⟩ := List.mem_map.1 he
        obtain ⟨-, rfl⟩ := RelayOutput.publisher.inj heq
        rcases List.mem_cons.1 hevent with hfirst | hevent
        · cases hfirst
        · exact ⟨calls, hevent⟩
  | remove hpub =>
      refine ⟨fun hkeyed => hkeyed, fun streamId => ?_⟩
      rw [or_iff_left (hquiet (by simp [RelayOutput.IsPublished]) streamId)]
      rfl
  | @pusher streamId event hcallback =>
      have hout := onPusher_outputs m streamId event
      refine ⟨fun hkeyed => ?_, fun streamId' => ?_⟩
      · unfold RelayManager.onPusher
        split
        · exact hkeyed
        · rename_i p hpusher
          exact hkeyed.update ((Pusher.streamId_handle ..).trans (hkeyed _ p hpusher))
      · rw [or_iff_left (hquiet (fun e he => (hout e he).1.not_isPublished) streamId'),
          onPusher_pushers]

/-! ### Who has created a pusher -/

/-- Numbers that are not given out have no publisher. -/
def RelayManager.Fresh (m : RelayManager) : Prop := ∀ id, m.next ≤ id → m.publishers id = none

theorem fresh_step {i : RelayEvent} {out : List RelayOutput} (hfresh : m.Fresh)
    (h : MessageStep m i out m') : m'.Fresh := by
  cases h with
  | accept growth =>
      intro id hid
      have hlater : m.next + 1 ≤ id := hid
      have hne : id ≠ m.next := by omega
      simp only [Function.update_of_ne hne]
      exact hfresh id (by omega)
  | transport session hpub hevents => exact RelayManager.fresh_put hfresh hpub
  | message hpub hmessage => exact RelayManager.fresh_put hfresh hpub
  | remove hpub => exact RelayManager.fresh_put hfresh hpub
  | @pusher streamId event hcallback =>
      obtain ⟨hpublishers, hnext⟩ := onPusher_publishers m streamId event
      intro id hid
      rw [hnext] at hid
      rw [hpublishers]
      exact hfresh id hid

/-- A message changes the stream id of a publisher only if it is `connect` or `publish`. -/
theorem Effect.held (h : Effect r pub o msg r' pub' events) :
    (∃ cmd, commandOf o msg = some cmd ∧
      (cmd.name = ascii "connect" ∨ cmd.name = ascii "publish")) ∨
      (pub'.ready = pub.ready ∧ pub'.streamId = pub.streamId) := by
  cases h with
  | ignored => exact .inr ⟨rfl, rfl⟩
  | connect hcommand hname _ => exact .inl ⟨_, hcommand, .inl hname⟩
  | answered _ => exact .inr ⟨rfl, rfl⟩
  | publish hcommand hname _ _ _ => exact .inl ⟨_, hcommand, .inr hname⟩
  | media _ => exact .inr ⟨rfl, rfl⟩

theorem Effect.held_of_created {calls : List ClientCall} (h : Effect r pub o msg r' pub' events)
    (hmem : .published streamId (some calls) ∈ events) :
    pub'.ready = true ∧ pub'.streamId = streamId := by
  cases h with
  | ignored => cases hmem
  | connect _ _ hout => exact absurd hmem (not_mem_published_of_isChunks hout _ _)
  | answered hout => exact absurd hmem (not_mem_published_of_isChunks hout _ _)
  | publish _ _ _ hout hstart =>
      refine ⟨rfl, ?_⟩
      rcases List.mem_append.1 hmem with hmem | hmem
      · exact absurd hmem (not_mem_published_of_isChunks hout _ _)
      · rcases startRelaying_cases hstart with ⟨calls', -, rfl, -⟩ | ⟨p, calls', -, -, -, -, rfl⟩
        · simp at hmem
        · cases List.mem_singleton.1 hmem
          rfl
  | media _ =>
      rcases handlePublisherMedia_cases r pub msg with ⟨calls', hmedia⟩ | ⟨p, p', calls', -, hmedia⟩
      · rw [hmedia] at hmem
        simp at hmem
      · rw [hmedia] at hmem
        simp at hmem

theorem held_of_created {i : RelayEvent} {out : List RelayOutput} (h : MessageStep m i out m')
    (hcreated : ∃ e ∈ out, CreatedBy id streamId e) : m'.held id = some streamId := by
  obtain ⟨e, he, calls, rfl⟩ := hcreated
  cases h with
  | accept growth => cases he
  | transport session hpub hevents =>
      obtain ⟨event, hevent, heq⟩ := List.mem_map.1 he
      obtain ⟨-, rfl⟩ := RelayOutput.publisher.inj heq
      exact (hevents _ hevent).elim
  | message hpub hmessage =>
      obtain ⟨event, hevent, heq⟩ := List.mem_map.1 he
      obtain ⟨rfl, rfl⟩ := RelayOutput.publisher.inj heq
      rcases List.mem_cons.1 hevent with hfirst | hevent
      · cases hfirst
      · obtain ⟨hready, hstream⟩ := (effect_of_ok hmessage).held_of_created hevent
        rw [RelayManager.held_put_self, if_pos hready, hstream]
  | remove hpub => simp at he
  | @pusher streamId' event hcallback => exact ((onPusher_outputs m streamId' event _ he).1).elim

/-- **A publisher is ready under its stream id until it gives it up.** -/
theorem held_step {i : RelayEvent} {out : List RelayOutput} (hfresh : m.Fresh)
    (h : MessageStep m i out m') (hheld : m.held id = some streamId)
    (hkeeps : ¬ GivesUp id ⟨m, i, out⟩) : m'.held id = some streamId := by
  cases h with
  | accept growth =>
      have hne : id ≠ m.next := by
        rintro rfl
        rw [RelayManager.held, hfresh m.next le_rfl] at hheld
        cases hheld
      simp only [RelayManager.held, Function.update_of_ne hne]
      exact hheld
  | @transport id' pub session events hpub hevents =>
      have hsame : (m.put m.toRelays id' (some { pub with session := session })).held = m.held :=
        RelayManager.held_put hpub rfl fun _ => rfl
      rw [hsame]
      exact hheld
  | @message id' pub pub' o msg r events hpub hmessage =>
      by_cases hid : id = id'
      · subst hid
        rcases (effect_of_ok hmessage).held with ⟨cmd, hcommand, hname⟩ | ⟨hready, hstream⟩
        · exact absurd (.inr ⟨o, msg, cmd, rfl, hcommand, hname⟩) hkeeps
        · rw [RelayManager.held_put hpub hready fun _ => hstream]
          exact hheld
      · rw [RelayManager.held_put_of_ne hid]
        exact hheld
  | @remove id' pub hpub =>
      have hid : id ≠ id' := by
        rintro rfl
        exact hkeeps (.inl rfl)
      rw [RelayManager.held_put_of_ne hid]
      exact hheld
  | @pusher streamId' event hcallback =>
      rw [RelayManager.held, (onPusher_publishers m streamId' event).1]
      exact hheld

/-! ### A run -/

variable {settings : RelaySettings} {transcoder : Bool}
  {trace before after : List (Moment RelayManager RelayEvent RelayOutput)}

/-- What is known of the map and of the numbers of publishers after a run. -/
structure Stored (trace : List (Moment RelayManager RelayEvent RelayOutput)) (m : RelayManager) :
    Prop where
  keyed : m.Keyed
  fresh : m.Fresh
  created : ∀ streamId, (m.pushers streamId).isSome = true ↔
    ∃ id, ∃ e ∈ Machine.outputs trace, CreatedBy id streamId e

theorem stored_of_run (hrun : Run MessageStep (RelayManager.new settings transcoder) trace m) :
    Stored trace m := by
  induction hrun with
  | nil =>
      refine ⟨fun streamId p hp => ?_, fun id _ => rfl, fun streamId => ?_⟩
      · cases hp
      · simp [RelayManager.new]
  | @snoc trace m m' i out _ hstep ih =>
      obtain ⟨hkeyed, hsome⟩ := pushers_step hstep
      refine ⟨hkeyed ih.keyed, fresh_step ih.fresh hstep, fun streamId => ?_⟩
      rw [hsome, ih.created, Machine.outputs_snoc]
      constructor
      · rintro (⟨id, e, he, hcreated⟩ | ⟨id, e, he, hcreated⟩)
        · exact ⟨id, e, List.mem_append_left _ he, hcreated⟩
        · exact ⟨id, e, List.mem_append_right _ he, hcreated⟩
      · rintro ⟨id, e, he, hcreated⟩
        rcases List.mem_append.1 he with he | he
        · exact .inl ⟨id, e, he, hcreated⟩
        · exact .inr ⟨id, e, he, hcreated⟩

theorem held_of_run (hrun : Run MessageStep m trace m') (hfresh : m.Fresh)
    (hheld : m.held id = some streamId) (hkeeps : ∀ m' ∈ trace, ¬ GivesUp id m') :
    m'.held id = some streamId := by
  have hall : m'.Fresh ∧ m'.held id = some streamId := by
    refine hrun.invariant (P := fun m => ¬ GivesUp id m)
      (I := fun _ m => m.Fresh ∧ m.held id = some streamId) hkeeps ⟨hfresh, hheld⟩ ?_
    intro trace m i out m' _ hsofar hstays hstep
    exact ⟨fresh_step hsofar.1 hstep, held_step hsofar.1 hstep hsofar.2 hstays⟩
  exact hall.2

/-- **Pushers stay, whether or not their publishers do.**  A stream id has a pusher exactly if a
`publish` has created one; the publisher that has created it is there, and ready under the stream id, as
long as it neither leaves nor sends another `connect` or `publish`; when it leaves, pushers and their
clients are left alone; and a pusher whose connection ends connects again, for nobody too. -/
theorem pusher_lifetime (hrun : Run MessageStep (RelayManager.new settings transcoder) trace m) :
    Lifetime trace m where
  created := (stored_of_run hrun).created
  held before creation after id streamId hsplit hcreated hkeeps := by
    subst hsplit
    obtain ⟨hbefore, m₁, hstep, hafter⟩ := hrun.split
    have hfresh := fresh_step (stored_of_run hbefore).fresh hstep
    exact held_of_run hafter hfresh (held_of_created hstep hcreated) hkeeps
  removed before removal after id hsplit hinput := by
    subst hsplit
    obtain ⟨-, m₁, hstep, hafter⟩ := hrun.split
    rw [hinput] at hstep
    generalize hout : removal.outputs = out at hstep
    cases hstep with
    | remove hpub => exact ⟨rfl, removal.state.put removal.state.toRelays id none, rfl, hafter⟩
  reconnects m' hm' streamId resolve hinput hsome := by
    obtain ⟨before, after, rfl⟩ := List.append_of_mem hm'
    obtain ⟨hbefore, m₁, hstep, -⟩ := hrun.split
    obtain ⟨p, hpusher⟩ := Option.isSome_iff_exists.1 hsome
    have hkey := (stored_of_run hbefore).keyed streamId p hpusher
    rw [hinput] at hstep
    generalize hout : m'.outputs = out at hstep
    cases hstep with
    | pusher hcallback =>
        rw [RelayManager.onPusher, hpusher]
        simp only [Pusher.handle, handlePusherDisconnected, reconnect, hkey]
        cases pushAddress m'.state.toRelaySettings resolve streamId <;> rfl

/-! ### A publisher that leaves -/

theorem exists_left : ∃ (trace : List (Moment RelayManager RelayEvent RelayOutput)) (m : RelayManager),
    Run MessageStep (RelayManager.new pushSettings false) trace m ∧
      (∃ e ∈ Machine.outputs trace, CreatedBy 0 sharedId e) ∧ (m.pushers sharedId).isSome = true ∧
        ∀ id, m.held id = none := by
  obtain ⟨trace, hrun, -⟩ := exists_run_twoPublishers
  obtain ⟨silent, calls, p, pub, hpublish, -, -⟩ :=
    @exists_publish_step 0 sharedId twoPublishers _ resolved (ascii "s") rfl sound_new (by decide) rfl
      rfl rfl createPusher_pushSettings
  have hremove := MessageStep.remove (m := twoPublishers.withPusher sharedId p 0 pub)
    RelayManager.put_publishers_self
  have hsome : ((twoPublishers.withPusher sharedId p 0 pub).pushers sharedId).isSome = true :=
    Option.isSome_of_mem (RelayManager.withPusher_self p 0 pub)
  refine ⟨_, _, (hrun.snoc hpublish).snoc hremove, ⟨_, ?_, calls, rfl⟩, hsome, fun id => ?_⟩
  · rw [Machine.outputs_snoc, Machine.outputs_snoc]
    simp
  · by_cases hid : id = 0
    · rw [hid, RelayManager.held, RelayManager.put_publishers_self, Option.bind_none]
    · rw [RelayManager.held_put_of_ne hid, RelayManager.withPusher, RelayManager.held_put_of_ne hid]
      by_cases hone : id = 1
      · subst hone
        rfl
      · simp [RelayManager.held, twoPublishers, Function.update, hid, hone]

/-- **A pusher outlives its publisher**: nobody is there who is ready under its stream id. -/
theorem not_backed : ¬ ∀ (settings : RelaySettings) (transcoder : Bool)
    (trace : List (Moment RelayManager RelayEvent RelayOutput)) (m : RelayManager),
    Run MessageStep (RelayManager.new settings transcoder) trace m →
      ∀ streamId, (m.pushers streamId).isSome = true → ∃ id, m.held id = some streamId := by
  intro hall
  obtain ⟨trace, m, hrun, -, hsome, hnobody⟩ := exists_left
  obtain ⟨id, hheld⟩ := hall _ _ _ _ hrun sharedId hsome
  rw [hnobody id] at hheld
  cases hheld

/-- The pusher of the publisher that has left is there, as it has been created. -/
theorem pusher_lifetime_left : ∃ trace m,
    Run MessageStep (RelayManager.new pushSettings false) trace m ∧
      (m.pushers sharedId).isSome = true ∧ (∀ id, m.held id = none) ∧ Lifetime trace m := by
  obtain ⟨trace, m, hrun, hcreated, -, hnobody⟩ := exists_left
  have hlifetime := pusher_lifetime hrun
  exact ⟨trace, m, hrun, (hlifetime.created sharedId).2 ⟨0, hcreated⟩, hnobody, hlifetime⟩

end Relay
