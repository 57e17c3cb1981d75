/-
**Whose pusher is it?**

A pusher is stored under the stream id of the publisher that created it, and media are handed to the
pusher that is stored under the stream id that a publisher has at the moment.  Nothing says whose a
pusher is: a publisher that takes the stream id of another one, by `publish` or by a second `connect`,
takes its pusher too.  As long as publishers keep out of each other's way, and each `publish` creates a
pusher or finds none, a pusher is only given media of the publisher that created it.

Main definitions:

* `Relay.Owns` — the pusher of a stream id was created by the most recent `publish` of a publisher, and
  has not been replaced;
* `Relay.Isolated` — media are handed to a pusher by its owner only, and no pusher of a live publisher
  is replaced by another publisher;
* `Relay.Considerate` — what a message must not do.

Main results:

* `Relay.Accounts.step` — what is known of owners at any time;
* `Relay.publisher_isolation` — **media go to the pusher of the sender's own stream id, and publishers
  that are considerate are isolated**.
-/

import RtmpTranscoder.RelayMessages

set_option relaxedAutoImplicit false
set_option autoImplicit false

namespace Relay

open Machine (Moment Run InForce Obeys)
open Rtmp (Failure Message CommandMessage Session GrowthPolicy)
open Text (ascii)

/-- The publisher `id` creates the pusher of a stream. -/
def CreatedBy (id : ℕ) (streamId : StreamId) (e : RelayOutput) : Prop :=
  ∃ calls, e = .publisher id (.published streamId (some calls))

/-- The pusher of a stream is replaced, or the publisher `id` publishes anew. -/
def Supersedes (id : ℕ) (streamId : StreamId) (e : RelayOutput) : Prop :=
  (∃ id', CreatedBy id' streamId e) ∨
    ∃ streamId' created, e = .publisher id (.published streamId' created)

/-- The most recent `publish` of the publisher `id` has created the pusher of a stream, and this is the
pusher that is there. -/
def Owns (id : ℕ) (streamId : StreamId) (log : List RelayOutput) : Prop :=
  InForce (CreatedBy id streamId) (Supersedes id streamId) log

/-- The publisher `id` has been removed. -/
def Left (id : ℕ) (log : List RelayOutput) : Prop := .publisher id .removed ∈ log

/-- What isolation allows: media for the pusher that the sender owns, and pushers for streams whose
pusher no other live publisher owns. -/
def Permitted (log : List RelayOutput) : RelayOutput → Prop
  | .publisher id (.relayed streamId msg _) => isMedia msg = true → Owns id streamId log
  | .publisher id (.published streamId (some _)) =>
      ∀ id', id' ≠ id → ¬ Left id' log → ¬ Owns id' streamId log
  | _ => True

/-- Publishers are isolated. -/
def Isolated (log : List RelayOutput) : Prop := Obeys Permitted log

/-- The stream id under which a publisher is ready. -/
def RelayManager.held (m : RelayManager) (id : ℕ) : Option StreamId :=
  (m.publishers id).bind fun pub => if pub.ready then some pub.streamId else none

/-- A message is considerate: a publisher that has published does not change its application; nobody
publishes under the stream id of another publisher that has published and is live; and who publishes
gets a pusher, or there is none under the stream id. -/
def Considerate (m : Moment RelayManager RelayEvent RelayOutput) : Prop :=
  ∀ id o msg pub cmd, m.input = .message id o msg → m.state.publishers id = some pub →
    commandOf o msg = some cmd →
      (cmd.name = ascii "connect" → pub.ready = true → connectApp cmd = pub.streamId.app) ∧
      ∀ stream, cmd.name = ascii "publish" → publishStream cmd = some stream →
        (∀ id', id' ≠ id → m.state.held id' ≠ some { pub.streamId with stream := stream }) ∧
        (m.state.pushers { pub.streamId with stream := stream } = none ∨
          m.state.transcoder = false ∧
            (createPusher m.state.toRelaySettings o.resolve
              { pub.streamId with stream := stream }).isSome = true)

/-- A manager before its first connection. -/
def RelayManager.new (settings : RelaySettings) (transcoder : Bool) : RelayManager where
  toRelaySettings := settings
  transcoder := transcoder

variable {id id' : ℕ} {streamId streamId' : StreamId} {log more : List RelayOutput}
  {m m' : RelayManager}

/-! ### Owners -/

/-- An event is the answer to a `publish`. -/
def RelayOutput.IsPublished (e : RelayOutput) : Prop :=
  ∃ id streamId created, e = .publisher id (.published streamId created)

theorem CreatedBy.isPublished {e : RelayOutput} (h : CreatedBy id streamId e) : e.IsPublished := by
  obtain ⟨calls, rfl⟩ := h
  exact ⟨_, _, _, rfl⟩

theorem Supersedes.isPublished {e : RelayOutput} (h : Supersedes id streamId e) :
    e.IsPublished := by
  rcases h with ⟨id', hcreated⟩ | ⟨streamId', created, rfl⟩
  · exact hcreated.isPublished
  · exact ⟨_, _, _, rfl⟩

/-- Owners change by `publish` only. -/
theorem owns_append (hmore : ∀ e ∈ more, ¬ e.IsPublished) :
    Owns id streamId (log ++ more) ↔ Owns id streamId log := by
  induction more using List.reverseRecOn with
  | nil => rw [List.append_nil]
  | append_singleton more e ih =>
      have hlast := hmore e (List.mem_append_right _ (List.mem_singleton_self _))
      rw [← List.append_assoc, Owns, Machine.inForce_snoc]
      constructor
      · rintro (hopen | ⟨howns, -⟩)
        · exact absurd hopen.isPublished hlast
        · exact (ih fun e' he' => hmore e' (List.mem_append_left _ he')).1 howns
      · intro howns
        refine .inr ⟨(ih fun e' he' => hmore e' (List.mem_append_left _ he')).2 howns, ?_⟩
        exact fun hclose => hlast hclose.isPublished

theorem owns_published {calls : List ClientCall} :
    Owns id streamId (log ++ [.publisher id (.published streamId (some calls))]) :=
  Machine.inForce_snoc.2 (.inl ⟨calls, rfl⟩)

theorem owns_published_of_ne {created : Option (List ClientCall)} (hid : id' ≠ id)
    (hother : streamId' = streamId → created = none) (h : Owns id' streamId' log) :
    Owns id' streamId' (log ++ [.publisher id (.published streamId created)]) := by
  refine Machine.inForce_snoc.2 (.inr ⟨h, ?_⟩)
  rintro (⟨id₁, calls, hcreated⟩ | ⟨streamId₁, created₁, hpublished⟩)
  · cases hcreated
    cases hother rfl
  · cases hpublished
    exact hid rfl

/-- After a `publish`, the owner of a pusher is who published, or it was so before. -/
theorem of_owns_published {created : Option (List ClientCall)}
    (h : Owns id' streamId' (log ++ [.publisher id (.published streamId created)])) :
    (id' = id ∧ streamId' = streamId) ∨
      id' ≠ id ∧ (streamId' = streamId → created = none) ∧ Owns id' streamId' log := by
  rcases Machine.inForce_snoc.1 h with ⟨calls, hcreated⟩ | ⟨howns, hopen⟩
  · cases hcreated
    exact .inl ⟨rfl, rfl⟩
  · refine .inr ⟨?_, ?_, howns⟩
    · rintro rfl
      exact hopen (.inr ⟨streamId, created, rfl⟩)
    · rintro rfl
      cases created with
      | none => rfl
      | some calls => exact absurd (.inl ⟨id, calls, rfl⟩) hopen

/-! ### Events that change no owner -/

/-- An event is neither an answer to a `publish`, nor the end of a connection. -/
def RelayOutput.IsQuiet : RelayOutput → Prop
  | .publisher _ (.published ..) | .publisher _ .removed => False
  | _ => True

/-- What happens on a connection, and is nothing to a pusher. -/
def PublisherEvent.IsSilent : PublisherEvent → Prop
  | .published .. | .relayed .. | .removed => False
  | _ => True

theorem RelayOutput.IsQuiet.not_isPublished {e : RelayOutput} (h : e.IsQuiet) :
    ¬ e.IsPublished := by
  rintro ⟨id, streamId, created, rfl⟩
  exact h

theorem PublisherEvent.IsTransport.isSilent {e : PublisherEvent} (h : e.IsTransport) :
    e.IsSilent := by
  cases e <;> trivial

theorem PublisherEvent.IsChunks.isSilent {e : PublisherEvent} (h : e.IsChunks) : e.IsSilent := by
  obtain ⟨data, rfl⟩ := h
  trivial

theorem PublisherEvent.IsSilent.isQuiet {e : PublisherEvent} (h : e.IsSilent) (id : ℕ) :
    (RelayOutput.publisher id e).IsQuiet := by
  cases e <;> trivial

theorem PublisherEvent.IsSilent.permitted {e : PublisherEvent} (h : e.IsSilent) (id : ℕ)
    (log : List RelayOutput) : Permitted log (.publisher id e) := by
  cases e <;> trivial

theorem left_append (hmore : ∀ e ∈ more, e.IsQuiet) : Left id (log ++ more) ↔ Left id log := by
  constructor
  · intro h
    exact (List.mem_append.1 h).elim (fun h => h) fun h => (hmore _ h).elim
  · intro h
    exact List.mem_append_left _ h

theorem Isolated.append_silent {events : List PublisherEvent} (h : Isolated log)
    (hsilent : ∀ e ∈ events, e.IsSilent) (id : ℕ) :
    Isolated (log ++ events.map (.publisher id)) := by
  refine h.append fun e he before => ?_
  obtain ⟨event, hevent, rfl⟩ := List.mem_map.1 he
  exact (hsilent event hevent).permitted id before

theorem isQuiet_map {events : List PublisherEvent} (hsilent : ∀ e ∈ events, e.IsSilent) (id : ℕ) :
    ∀ e ∈ events.map (RelayOutput.publisher id), e.IsQuiet := by
  intro e he
  obtain ⟨event, hevent, rfl⟩ := List.mem_map.1 he
  exact (hsilent event hevent).isQuiet id

/-! ### What is known of owners -/

/-- Numbers that are not given out have no publisher; the pusher of a publisher that is ready is its
own; and an owner that is live is ready under the stream id of its pusher. -/
structure Accounts (log : List RelayOutput) (m : RelayManager) : Prop where
  fresh : ∀ id, m.next ≤ id → m.publishers id = none
  owner : ∀ {id streamId}, m.held id = some streamId → (m.pushers streamId).isSome = true →
    Owns id streamId log
  held : ∀ {id streamId}, Owns id streamId log → ¬ Left id log → m.held id = some streamId

theorem accounts_new (settings : RelaySettings) (transcoder : Bool) :
    Accounts [] (RelayManager.new settings transcoder) where
  fresh _ _ := rfl
  owner h := by cases h
  held h := absurd h Machine.not_inForce_nil

/-- What changes nobody's stream id, and keeps the pushers where they are, is nothing to owners. -/
theorem Accounts.quiet (h : Accounts log m) (hmore : ∀ e ∈ more, e.IsQuiet)
    (hfresh : ∀ id, m'.next ≤ id → m'.publishers id = none) (hheld : m'.held = m.held)
    (hpushers : ∀ streamId, (m'.pushers streamId).isSome = (m.pushers streamId).isSome) :
    Accounts (log ++ more) m' where
  fresh := hfresh
  owner {id streamId} hid hpusher := by
    rw [hheld] at hid
    rw [hpushers] at hpusher
    exact (owns_append fun e he => (hmore e he).not_isPublished).2 (h.owner hid hpusher)
  held {id streamId} howns hlive := by
    rw [hheld]
    exact h.held ((owns_append fun e he => (hmore e he).not_isPublished).1 howns)
      fun hleft => hlive ((left_append hmore).2 hleft)

namespace RelayManager

variable {r : Relays} {pub : Publisher} {next : Option Publisher}

theorem held_put_self : (m.put r id (some pub)).held id =
    if pub.ready then some pub.streamId else none := by
  rw [held, put_publishers_self, Option.bind_some]

theorem held_put_of_ne (h : id' ≠ id) : (m.put r id next).held id' = m.held id' := by
  rw [held, held, put_publishers_of_ne h]

theorem held_of_publishers (h : m.publishers id = some pub) :
    m.held id = if pub.ready then some pub.streamId else none := by
  rw [held, h, Option.bind_some]

/-- A publisher that is exchanged for one with the same stream id. -/
theorem held_put {pub' : Publisher} (h : m.publishers id = some pub) (hready : pub'.ready = pub.ready)
    (hstream : pub.ready = true → pub'.streamId = pub.streamId) :
    (m.put r id (some pub')).held = m.held := by
  funext id'
  by_cases hid : id' = id
  · subst hid
    rw [held_put_self, held_of_publishers h, hready]
    split
    · rename_i hpub
      rw [hstream hpub]
    · rfl
  · exact held_put_of_ne hid

theorem fresh_put (hfresh : ∀ id, m.next ≤ id → m.publishers id = none)
    (hpub : m.publishers id = some pub) :
    ∀ id', (m.put r id next).next ≤ id' → (m.put r id next).publishers id' = none := by
  intro id' hid'
  by_cases hid : id' = id
  · subst hid
    rw [hfresh id' hid'] at hpub
    cases hpub
  · rw [put_publishers_of_ne hid]
    exact hfresh id' hid'

end RelayManager

theorem isSome_update {pushers : StreamId → Option Pusher} {p : Pusher}
    (h : (pushers streamId).isSome = true) (streamId' : StreamId) :
    (Function.update pushers streamId (some p) streamId').isSome = (pushers streamId').isSome := by
  by_cases hsame : streamId' = streamId
  · subst hsame
    rw [Function.update_self, h, Option.isSome_some]
  · rw [Function.update_of_ne hsame]

/-- The callbacks of the client of a pusher keep the pushers where they are. -/
theorem onPusher_pushers (m : RelayManager) (streamId : StreamId) (event : PusherEvent)
    (streamId' : StreamId) :
    ((m.onPusher streamId event).1.pushers streamId').isSome = (m.pushers streamId').isSome := by
  unfold RelayManager.onPusher
  split
  · rfl
  · rename_i p hpusher
    exact isSome_update (Option.isSome_of_mem hpusher) streamId'

theorem onPusher_outputs (m : RelayManager) (streamId : StreamId) (event : PusherEvent) :
    ∀ e ∈ (m.onPusher streamId event).2, e.IsQuiet ∧ ∀ log, Permitted log e := by
  intro e he
  unfold RelayManager.onPusher at he
  split at he
  · cases he
  · rw [List.mem_singleton.1 he]
    exact ⟨trivial, fun _ => trivial⟩

/-! ### A step -/

/-- What a message that is nothing to a pusher does to owners. -/
theorem Accounts.silent {r : Relays} {pub pub' : Publisher} {events : List PublisherEvent}
    (h : Accounts log m) (hiso : Isolated log) (hpub : m.publishers id = some pub)
    (hevents : ∀ e ∈ events, e.IsSilent) (hready : pub'.ready = pub.ready)
    (hstream : pub.ready = true → pub'.streamId = pub.streamId)
    (hpushers : ∀ streamId, (r.pushers streamId).isSome = (m.pushers streamId).isSome) :
    Accounts (log ++ events.map (.publisher id)) (m.put r id (some pub')) ∧
      Isolated (log ++ events.map (.publisher id)) :=
  ⟨h.quiet (isQuiet_map hevents id) (RelayManager.fresh_put h.fresh hpub)
    (RelayManager.held_put hpub hready hstream) hpushers, hiso.append_silent hevents id⟩

/-- What is nothing to a pusher, and changes nothing, is nothing to owners. -/
theorem Accounts.unchanged {pub : Publisher} {events : List PublisherEvent} (h : Accounts log m)
    (hiso : Isolated log) (hpub : m.publishers id = some pub)
    (hevents : ∀ e ∈ events, e.IsSilent) :
    Accounts (log ++ events.map (.publisher id)) m ∧
      Isolated (log ++ events.map (.publisher id)) := by
  have hsame := @Accounts.silent id log m m.toRelays pub pub events h hiso hpub hevents rfl
    (fun _ => rfl) fun _ => rfl
  rwa [RelayManager.put_self hpub] at hsame

/-- What a `publish` does to owners, if nobody else has the stream id. -/
theorem Accounts.publish {r : Relays} {pub pub' : Publisher} {created : Option (List ClientCall)}
    (h : Accounts log m) (hpub : m.publishers id = some pub) (hready : pub'.ready = true)
    (hstream : pub'.streamId = streamId)
    (hother : ∀ id', id' ≠ id → m.held id' ≠ some streamId)
    (hcreated : (r.pushers streamId).isSome = true → created.isSome = true)
    (hpushers : ∀ streamId', streamId' ≠ streamId → r.pushers streamId' = m.pushers streamId') :
    Accounts (log ++ [.publisher id (.published streamId created)]) (m.put r id (some pub')) where
  fresh := RelayManager.fresh_put h.fresh hpub
  owner {id' streamId'} hid' hpusher := by
    by_cases hid : id' = id
    · subst hid
      rw [RelayManager.held_put_self, if_pos hready, hstream] at hid'
      obtain rfl := Option.some.inj hid'
      obtain ⟨calls, rfl⟩ := Option.isSome_iff_exists.1 (hcreated hpusher)
      exact owns_published
    · rw [RelayManager.held_put_of_ne hid] at hid'
      have hne : streamId' ≠ streamId := by
        rintro rfl
        exact hother id' hid hid'
      refine owns_published_of_ne hid (fun hsame => absurd hsame hne) (h.owner hid' ?_)
      rwa [← hpushers streamId' hne]
  held {id' streamId'} howns hlive := by
    rcases of_owns_published howns with ⟨rfl, rfl⟩ | ⟨hid, -, hbefore⟩
    · rw [RelayManager.held_put_self, if_pos hready, hstream]
    · rw [RelayManager.held_put_of_ne hid]
      exact h.held hbefore fun hleft => hlive (List.mem_append_left _ hleft)

theorem Accounts.permitted_published (h : Accounts log m) (created : Option (List ClientCall))
    (hother : ∀ id', id' ≠ id → m.held id' ≠ some streamId) :
    Permitted log (.publisher id (.published streamId created)) := by
  cases created with
  | none => trivial
  | some calls =>
      intro id' hid' hlive howns
      exact hother id' hid' (h.held howns hlive)

theorem Accounts.accept (h : Accounts log m) (growth : GrowthPolicy) :
    Accounts log { m with
      next := m.next + 1
      publishers := Function.update m.publishers m.next (some (Publisher.new growth)) } := by
  have hnext : ∀ id, m.next + 1 ≤ id →
      Function.update m.publishers m.next (some (Publisher.new growth)) id = none := by
    intro id hid
    rw [Function.update_of_ne (by omega)]
    exact h.fresh id (by omega)
  have hheld : RelayManager.held { m with
      next := m.next + 1
      publishers := Function.update m.publishers m.next (some (Publisher.new growth)) } = m.held := by
    funext id
    by_cases hid : id = m.next
    · subst hid
      simp only [RelayManager.held, Function.update_self, h.fresh m.next le_rfl, Option.bind_some,
        Option.bind_none]
      rfl
    · simp only [RelayManager.held, Function.update_of_ne hid]
  rw [← List.append_nil log]
  exact h.quiet (by simp) hnext hheld fun _ => rfl

/-- A publisher that is removed may keep a pusher, and does not count as its owner any more. -/
theorem Accounts.remove {pub : Publisher} (h : Accounts log m) (hpub : m.publishers id = some pub) :
    Accounts (log ++ [.publisher id .removed]) (m.put m.toRelays id none) where
  fresh := RelayManager.fresh_put h.fresh hpub
  owner {id' streamId'} hid' hpusher := by
    have hid : id' ≠ id := by
      rintro rfl
      rw [RelayManager.held, RelayManager.put_publishers_self] at hid'
      cases hid'
    rw [RelayManager.held_put_of_ne hid] at hid'
    refine (owns_append ?_).2 (h.owner hid' hpusher)
    intro e he hpublished
    obtain ⟨id₁, streamId₁, created, rfl⟩ := hpublished
    simp at he
  held {id' streamId'} howns hlive := by
    have hid : id' ≠ id := by
      rintro rfl
      exact hlive (List.mem_append_right _ (List.mem_singleton_self _))
    rw [RelayManager.held_put_of_ne hid]
    refine h.held ((owns_append ?_).1 howns) fun hleft => hlive (List.mem_append_left _ hleft)
    intro e he hpublished
    obtain ⟨id₁, streamId₁, created, rfl⟩ := hpublished
    simp at he

/-- **Who publishes under a stream id that nobody else has, and gets a pusher or finds none, owns what
is there afterwards.** -/
theorem Accounts.published {pub pub' : Publisher} {o : CallOutcome} {r : Relays}
    {started : List PublisherEvent} (h : Accounts log m) (hiso : Isolated log)
    (hpub : m.publishers id = some pub) (hready : pub'.ready = true) (hstream : pub'.streamId = streamId)
    (hother : ∀ id', id' ≠ id → m.held id' ≠ some streamId)
    (hcreate : m.pushers streamId = none ∨ m.transcoder = false ∧
      (createPusher m.toRelaySettings o.resolve streamId).isSome = true)
    (hstart : startRelaying m.toRelays o streamId = .ok (r, started)) :
    Accounts (log ++ started.map (.publisher id)) (m.put r id (some pub')) ∧
      Isolated (log ++ started.map (.publisher id)) := by
  rcases startRelaying_cases hstart with ⟨calls, rfl, rfl, hnot⟩ | ⟨p, calls, -, -, -, rfl, rfl⟩
  · have hnone : m.pushers streamId = none := by
      rcases hcreate with hnone | ⟨htranscoder, hsome⟩
      · exact hnone
      · rw [(hnot htranscoder).2] at hsome
        cases hsome
    have hpublish : Accounts (log ++ [.publisher id (.published streamId none)])
        (m.put m.toRelays id (some pub')) :=
      h.publish hpub hready hstream hother (by simp [hnone]) fun _ _ => rfl
    have hpermitted : Isolated (log ++ [.publisher id (.published streamId none)]) :=
      hiso.snoc (h.permitted_published none hother)
    have hsilent : ∀ e ∈ calls.map PublisherEvent.transcoder, e.IsSilent := by
      intro e he
      obtain ⟨call, -, rfl⟩ := List.mem_map.1 he
      trivial
    have hstarted := hpublish.silent hpermitted RelayManager.put_publishers_self hsilent rfl
      (fun _ => rfl) fun _ => rfl
    rw [RelayManager.put_put, List.append_assoc] at hstarted
    exact hstarted
  · refine ⟨h.publish hpub hready hstream hother (fun _ => rfl) ?_,
      hiso.snoc (h.permitted_published (some calls) hother)⟩
    intro streamId' hne
    exact Function.update_of_ne hne _ _

theorem Accounts.media {pub : Publisher} (h : Accounts log m) (hiso : Isolated log)
    (hpub : m.publishers id = some pub) (hready : pub.ready = true) (msg : Message) :
    Accounts (log ++ (handlePublisherMedia m.toRelays pub msg).2.map (.publisher id))
        (m.put (handlePublisherMedia m.toRelays pub msg).1 id (some pub)) ∧
      Isolated (log ++ (handlePublisherMedia m.toRelays pub msg).2.map (.publisher id)) := by
  have hheld : m.held id = some pub.streamId := by
    rw [RelayManager.held_of_publishers hpub, if_pos hready]
  rcases handlePublisherMedia_cases m.toRelays pub msg with
    ⟨calls, hmedia⟩ | ⟨p, p', calls, hpusher, hmedia⟩
  · have hsilent : ∀ e ∈ calls.map PublisherEvent.transcoder, e.IsSilent := by
      intro e he
      obtain ⟨call, -, rfl⟩ := List.mem_map.1 he
      trivial
    rw [hmedia]
    exact h.silent hiso hpub hsilent rfl (fun _ => rfl) fun _ => rfl
  · have hsome : (m.pushers pub.streamId).isSome = true := Option.isSome_of_mem hpusher
    rw [hmedia]
    refine ⟨h.quiet (by simp [RelayOutput.IsQuiet]) (RelayManager.fresh_put h.fresh hpub)
      (RelayManager.held_put hpub rfl fun _ => rfl) (isSome_update hsome), hiso.snoc ?_⟩
    exact fun _ => h.owner hheld hsome

theorem Accounts.effect {pub pub' : Publisher} {o : CallOutcome} {msg : Message} {r : Relays}
    {events : List PublisherEvent} (h : Accounts log m) (hiso : Isolated log)
    (hpub : m.publishers id = some pub)
    (hconsiderate : ∀ out, Considerate ⟨m, .message id o msg, out⟩)
    (heffect : Effect m.toRelays pub o msg r pub' events) :
    Accounts (log ++ events.map (.publisher id)) (m.put r id (some pub')) ∧
      Isolated (log ++ events.map (.publisher id)) := by
  cases heffect with
  | ignored => exact h.silent hiso hpub (by simp) rfl (fun _ => rfl) fun _ => rfl
  | @connect cmd buffer _ hcommand hname hchunks =>
      refine h.silent hiso hpub (fun e he => (hchunks e he).isSilent) rfl ?_ fun _ => rfl
      intro hready
      -- a publisher that is ready keeps its application
      have happ := (hconsiderate [] id o msg pub cmd rfl hpub hcommand).1 hname hready
      simp only [happ]
  | answered hchunks =>
      exact h.silent hiso hpub (fun e he => (hchunks e he).isSilent) rfl (fun _ => rfl) fun _ => rfl
  | @publish cmd stream buffer r' out started hcommand hname hstream hchunks hstart =>
      obtain ⟨hother, hcreate⟩ :=
        (hconsiderate [] id o msg pub cmd rfl hpub hcommand).2 stream hname hstream
      -- the answer is sent before the pusher is created
      have hanswered := h.unchanged hiso hpub fun e he => (hchunks e he).isSilent
      rw [List.map_append, ← List.append_assoc]
      exact hanswered.1.published hanswered.2 hpub rfl rfl hother hcreate hstart
  | media hready => exact h.media hiso hpub hready msg

/-- **What is known of owners survives every step that is considerate.** -/
theorem Accounts.step {i : RelayEvent} {out : List RelayOutput} (h : Accounts log m)
    (hiso : Isolated log) (hconsiderate : ∀ out, Considerate ⟨m, i, out⟩)
    (hstep : MessageStep m i out m') : Accounts (log ++ out) m' ∧ Isolated (log ++ out) := by
  cases hstep with
  | accept growth =>
      rw [List.append_nil]
      exact ⟨h.accept growth, hiso⟩
  | transport session hpub hevents =>
      exact h.silent hiso hpub (fun e he => (hevents e he).isSilent) rfl (fun _ => rfl) fun _ => rfl
  | @message id pub pub' o msg r events hpub hmessage =>
      have hevent : ∀ e ∈ [PublisherEvent.message msg], e.IsSilent := by
        simp [PublisherEvent.IsSilent]
      have hnoted := h.unchanged hiso hpub hevent
      have heffect := hnoted.1.effect hnoted.2 hpub hconsiderate (effect_of_ok hmessage)
      rw [List.append_assoc] at heffect
      exact heffect
  | @remove id pub hpub =>
      refine ⟨h.remove hpub, hiso.append fun e he before => ?_⟩
      rw [List.mem_singleton.1 he]
      trivial
  | @pusher streamId event hcallback =>
      obtain ⟨hpublishers, hnext⟩ := onPusher_publishers m streamId event
      have hout := onPusher_outputs m streamId event
      refine ⟨h.quiet (fun e he => (hout e he).1) ?_ ?_ (onPusher_pushers m streamId event),
        hiso.append fun e he => (hout e he).2⟩
      · rw [hpublishers, hnext]
        exact h.fresh
      · funext id
        rw [RelayManager.held, hpublishers, RelayManager.held]

/-! ### A run -/

/-- Media that are handed to a pusher are what a publisher that is ready has just sent, and the pusher
is the one that is stored under its stream id. -/
def Attributed (m : Moment RelayManager RelayEvent RelayOutput) : Prop :=
  ∀ id streamId msg calls, RelayOutput.publisher id (.relayed streamId msg calls) ∈ m.outputs →
    (∃ o, m.input = .message id o msg) ∧ m.state.held id = some streamId ∧
      (m.state.pushers streamId).isSome = true

theorem Effect.relayed {r r' : Relays} {pub pub' : Publisher} {o : CallOutcome} {msg msg' : Message}
    {events : List PublisherEvent} {calls : List ClientCall}
    (h : Effect r pub o msg r' pub' events) (hmem : .relayed streamId msg' calls ∈ events) :
    msg' = msg ∧ pub.ready = true ∧ pub.streamId = streamId ∧
      (r.pushers streamId).isSome = true := by
  have hchunks {out : List PublisherEvent} (hout : ∀ e ∈ out, e.IsChunks) :
      .relayed streamId msg' calls ∉ out := by
    intro hmem
    obtain ⟨data, hdata⟩ := hout _ hmem
    cases hdata
  cases h with
  | ignored => cases hmem
  | connect _ _ hout => exact absurd hmem (hchunks hout)
  | answered hout => exact absurd hmem (hchunks hout)
  | publish _ _ _ hout hstart =>
      rcases List.mem_append.1 hmem with hmem | hmem
      · exact absurd hmem (hchunks hout)
      · rcases startRelaying_cases hstart with ⟨calls', -, rfl, -⟩ | ⟨p, calls', -, -, -, -, rfl⟩
        · simp at hmem
        · simp at hmem
  | media hready =>
      rcases handlePublisherMedia_cases r pub msg with
        ⟨calls', hmedia⟩ | ⟨p, p', calls', hpusher, hmedia⟩
      · rw [hmedia] at hmem
        simp at hmem
      · rw [hmedia] at hmem
        cases List.mem_singleton.1 hmem
        exact ⟨rfl, hready, rfl, Option.isSome_of_mem hpusher⟩

theorem attributed_step {i : RelayEvent} {out : List RelayOutput} (hstep : MessageStep m i out m') :
    Attributed ⟨m, i, out⟩ := by
  intro id streamId msg calls hmem
  have hsilent {id' : ℕ} {events : List PublisherEvent} (hevents : ∀ e ∈ events, e.IsSilent) :
      RelayOutput.publisher id (.relayed streamId msg calls) ∉
        events.map (RelayOutput.publisher id') := by
    intro hmem
    obtain ⟨event, hevent, heq⟩ := List.mem_map.1 hmem
    cases heq
    exact hevents _ hevent
  cases hstep with
  | accept growth => cases hmem
  | transport session hpub hevents =>
      exact absurd hmem (hsilent fun e he => (hevents e he).isSilent)
  | @message id' pub pub' o msg' r events hpub hmessage =>
      obtain ⟨event, hevent, heq⟩ := List.mem_map.1 hmem
      obtain ⟨rfl, rfl⟩ := RelayOutput.publisher.inj heq
      rcases List.mem_cons.1 hevent with heq | hevent
      · cases heq
      · obtain ⟨rfl, hready, rfl, hpusher⟩ := (effect_of_ok hmessage).relayed hevent
        refine ⟨⟨o, rfl⟩, ?_, hpusher⟩
        rw [RelayManager.held_of_publishers hpub, if_pos hready]
  | remove hpub => simp at hmem
  | pusher hcallback =>
      unfold RelayManager.onPusher at hmem
      split at hmem
      · cases hmem
      · simp at hmem

/-- **Media go to the pusher of the sender's stream id, and to nothing else; and publishers that are
considerate are isolated**: what a pusher is given comes from the publisher whose most recent `publish`
created it, and no pusher of a live publisher is replaced by another one. -/
theorem publisher_isolation {settings : RelaySettings} {transcoder : Bool}
    {trace : List (Moment RelayManager RelayEvent RelayOutput)}
    (hrun : Run MessageStep (RelayManager.new settings transcoder) trace m') :
    (∀ m ∈ trace, Attributed m) ∧
      ((∀ m ∈ trace, Considerate m) → Isolated (Machine.outputs trace)) := by
  constructor
  · induction hrun with
    | nil => simp
    | snoc _ hstep ih =>
        intro m hm
        rcases List.mem_append.1 hm with hm | hm
        · exact ih m hm
        · rw [List.mem_singleton.1 hm]
          exact attributed_step hstep
  · intro hconsiderate
    have hall : Accounts (Machine.outputs trace) m' ∧ Isolated (Machine.outputs trace) := by
      refine hrun.invariant
        (I := fun trace m => Accounts (Machine.outputs trace) m ∧ Isolated (Machine.outputs trace))
        hconsiderate ⟨accounts_new settings transcoder, Machine.obeys_nil⟩ ?_
      intro trace m i out m' _ hknown hmoment hstep
      rw [Machine.outputs_snoc]
      exact hknown.1.step hknown.2 (fun _ => hmoment) hstep
    exact hall.2

/-! ### Two publishers of one stream -/

theorem typeId_of_commandOf {o : CallOutcome} {msg : Message} {cmd : CommandMessage}
    (h : commandOf o msg = some cmd) :
    msg.typeId = Rtmp.MessageType.commandAMF0.code ∧ CommandMessage.parse o.stale msg.payload = some cmd := by
  unfold commandOf at h
  split at h
  · rename_i htype
    exact ⟨htype, h⟩
  · cases h

/-- A `connect` is answered, and changes the application. -/
theorem handlePublisherMessage_connect {r : Relays} {pub : Publisher} {o : CallOutcome} {msg : Message}
    {cmd : CommandMessage} (h : pub.Sound) (hcommand : commandOf o msg = some cmd)
    (hname : cmd.name = ascii "connect") :
    ∃ pub' out, handlePublisherMessage r pub o msg = .ok (r, pub', out) ∧
      (pub'.Sound ∧ pub'.ready = pub.ready ∧
        pub'.streamId = { pub.streamId with app := connectApp cmd }) ∧ ∀ e ∈ out, e.IsChunks := by
  obtain ⟨htype, hparse⟩ := typeId_of_commandOf hcommand
  have hsound : { pub with streamId := { pub.streamId with app := connectApp cmd } }.Sound := h
  obtain ⟨⟨pub', out⟩, hrespond⟩ := exists_respond hsound (connectReply cmd.transactionId)
  obtain ⟨buffer, hpub', hout⟩ := respond_ok hrespond
  refine ⟨pub', out, ?_, by rw [hpub']; exact ⟨h, rfl, rfl⟩, hout⟩
  rw [handlePublisherMessage, if_pos htype, hparse]
  simp only [handlePublisherCommand, hname, if_true, hrespond, bind, Except.bind]
  rfl

/-- A `publish` that is as it should be is answered, and the media of the stream are relayed from then
on. -/
theorem handlePublisherMessage_publish {r r' : Relays} {pub : Publisher} {o : CallOutcome}
    {msg : Message} {cmd : CommandMessage} {stream : List UInt8} {started : List PublisherEvent}
    (h : pub.Sound) (hcommand : commandOf o msg = some cmd) (hname : cmd.name = ascii "publish")
    (hstream : publishStream cmd = some stream)
    (hstart : startRelaying r o { pub.streamId with stream := stream } = .ok (r', started)) :
    ∃ pub' out, handlePublisherMessage r pub o msg = .ok (r', pub', out ++ started) ∧
      (pub'.Sound ∧ pub'.ready = true ∧ pub'.streamId = { pub.streamId with stream := stream }) ∧
        ∀ e ∈ out, e.IsChunks := by
  obtain ⟨htype, hparse⟩ := typeId_of_commandOf hcommand
  have hsound : { pub with
      streamId := { pub.streamId with stream := stream }
      ready := true }.Sound := h
  obtain ⟨⟨pub', out⟩, hrespond⟩ := exists_respond hsound publishReply
  obtain ⟨buffer, hpub', hout⟩ := respond_ok hrespond
  refine ⟨pub', out, ?_, by rw [hpub']; exact ⟨h, rfl, rfl⟩, hout⟩
  have hconnect : ascii "publish" ≠ ascii "connect" := by decide
  have hcreate : ascii "publish" ≠ ascii "createStream" := by decide
  have hstart' : startRelaying r o pub'.streamId = .ok (r', started) := by
    rw [hpub']
    exact hstart
  rw [handlePublisherMessage, if_pos htype, hparse]
  simp only [handlePublisherCommand, hname, if_neg hconnect, if_neg hcreate, if_true, hstream, hrespond,
    bind, Except.bind, hstart']
  rfl

/-- Without a pusher under the stream id, one is created and stored. -/
theorem startRelaying_of_none {r : Relays} {o : CallOutcome} {p : Pusher} {calls : List ClientCall}
    (htranscoder : r.transcoder = false) (hnone : r.pushers streamId = none)
    (hcreate : createPusher r.toRelaySettings o.resolve streamId = some (p, calls)) :
    startRelaying r o streamId =
      .ok ({ r with pushers := Function.update r.pushers streamId (some p) },
        [.published streamId (some calls)]) := by
  have huse : r.inUse o streamId = false := by
    rw [Relays.inUse, hnone]
  rw [startRelaying, if_neg (by simp [htranscoder]), hcreate]
  simp only [huse]
  rfl

/-- A command that connects to an application. -/
def connectTo (app : List UInt8) : CommandMessage where
  name := ascii "connect"
  transactionId := 0x3FF0000000000000
  arguments := [.object (Amf0.ObjectType.empty.set (ascii "app") (.string app))]

def connectMessage (app : List UInt8) : Message where
  typeId := Rtmp.MessageType.commandAMF0.code
  streamId := 0
  timestamp := 0
  payload := (connectTo app).encode

theorem commandOf_connectMessage {app : List UInt8} (h : app.length ≤ 65535) (o : CallOutcome) :
    commandOf o (connectMessage app) = some (connectTo app) := by
  have hbounded : (connectTo app).Bounded := by
    refine ⟨(by decide : (ascii "connect").length ≤ 65535), fun v hv => ?_⟩
    rw [List.mem_singleton.1 hv]
    have hobj : (Amf0.ObjectType.empty.set (ascii "app") (.string app)).Bounded :=
      Amf0.ObjectType.Bounded.set (fun _ hp => absurd hp List.not_mem_nil) (by decide) (.string h)
    exact .object (fun p hp => (hobj p hp).1) fun p hp => (hobj p hp).2
  exact (if_pos rfl).trans (CommandMessage.parse_encode hbounded o.stale)

def publishMessage (stream : List UInt8) : Message where
  typeId := Rtmp.MessageType.commandAMF0.code
  streamId := 1
  timestamp := 0
  payload := (publishCmd stream).encode

theorem commandOf_publishMessage {stream : List UInt8} (h : stream.length ≤ 65535)
    (o : CallOutcome) : commandOf o (publishMessage stream) = some (publishCmd stream) := by
  have hbounded : (publishCmd stream).Bounded := by
    refine ⟨by simp [publishCmd, ascii], ?_⟩
    intro v hv
    simp only [publishCmd, List.mem_cons, List.not_mem_nil, or_false] at hv
    rcases hv with rfl | rfl | rfl
    · exact .null
    · exact .string h
    · exact .string (by simp [ascii])
  exact (if_pos rfl).trans (CommandMessage.parse_encode hbounded o.stale)

theorem exists_connect_step {pub : Publisher} {app : List UInt8} (o : CallOutcome)
    (hpub : m.publishers id = some pub) (h : pub.Sound) (hlength : app.length ≤ 65535) :
    ∃ (silent : List PublisherEvent) (pub' : Publisher),
      MessageStep m (.message id o (connectMessage app)) (silent.map (.publisher id))
        (m.put m.toRelays id (some pub')) ∧
      (∀ e ∈ silent, e.IsSilent) ∧
      (pub'.Sound ∧ pub'.ready = pub.ready ∧ pub'.streamId = { pub.streamId with app := app }) := by
  obtain ⟨pub', out, hmessage, hpub', hout⟩ := handlePublisherMessage_connect (r := m.toRelays) h
    (commandOf_connectMessage hlength o) rfl
  refine ⟨_, pub', MessageStep.message hpub hmessage, fun e he => ?_, hpub'⟩
  rcases List.mem_cons.1 he with rfl | he
  · trivial
  · exact (hout e he).isSilent

/-- A manager whose publisher `id` has got a pusher. -/
def RelayManager.withPusher (m : RelayManager) (streamId : StreamId) (p : Pusher) (id : ℕ)
    (pub : Publisher) : RelayManager :=
  m.put { m.toRelays with pushers := Function.update m.pushers streamId (some p) } id (some pub)

theorem RelayManager.withPusher_self (p : Pusher) (id : ℕ) (pub : Publisher) :
    (m.withPusher streamId p id pub).pushers streamId = some p := Function.update_self ..

theorem RelayManager.withPusher_of_ne (h : streamId' ≠ streamId) (p : Pusher) (id : ℕ)
    (pub : Publisher) :
    (m.withPusher streamId p id pub).pushers streamId' = m.pushers streamId' :=
  Function.update_of_ne h _ _

/-- A publisher that publishes gets a pusher, if one can be created and there is none. -/
theorem exists_publish_step {pub : Publisher} {o : CallOutcome} {stream : List UInt8}
    (hpub : m.publishers id = some pub) (h : pub.Sound) (hlength : stream.length ≤ 65535)
    (htranscoder : m.transcoder = false) (hstreamId : { pub.streamId with stream := stream } = streamId)
    (hnone : m.pushers streamId = none)
    (hcreate : (createPusher m.toRelaySettings o.resolve streamId).isSome = true) :
    ∃ (silent : List PublisherEvent) (calls : List ClientCall) (p : Pusher) (pub' : Publisher),
      MessageStep m (.message id o (publishMessage stream))
        (silent.map (.publisher id) ++ [.publisher id (.published streamId (some calls))])
        (m.withPusher streamId p id pub') ∧
      (∀ e ∈ silent, e.IsSilent) ∧ (pub'.Sound ∧ pub'.ready = true ∧ pub'.streamId = streamId) := by
  subst hstreamId
  obtain ⟨⟨p, calls⟩, hcreated⟩ := Option.isSome_iff_exists.1 hcreate
  obtain ⟨pub', out, hmessage, hpub', hout⟩ := handlePublisherMessage_publish (r := m.toRelays) h
    (commandOf_publishMessage hlength o) rfl rfl (startRelaying_of_none htranscoder hnone hcreated)
  have hstep := MessageStep.message hpub hmessage
  rw [← List.cons_append, List.map_append] at hstep
  refine ⟨.message (publishMessage stream) :: out, calls, p, pub', hstep, fun e he => ?_, hpub'⟩
  rcases List.mem_cons.1 he with rfl | he
  · trivial
  · exact (hout e he).isSilent

/-- A publisher that is ready and sends media has them handed to the pusher of its stream. -/
theorem exists_media_step {pub : Publisher} {p : Pusher} {msg : Message} (o : CallOutcome)
    (hpub : m.publishers id = some pub) (hready : pub.ready = true) (htranscoder : m.transcoder = false)
    (hpusher : m.pushers pub.streamId = some p)
    (htype : msg.typeId ≠ Rtmp.MessageType.commandAMF0.code) :
    ∃ calls m', MessageStep m (.message id o msg)
      [.publisher id (.message msg), .publisher id (.relayed pub.streamId msg calls)] m' := by
  have hmessage : handlePublisherMessage m.toRelays pub o msg = .ok
      ({ m.toRelays with
          pushers := Function.update m.pushers pub.streamId (some (relayMessage m.policy p msg).1) },
        pub, [.relayed pub.streamId msg (relayMessage m.policy p msg).2]) := by
    rw [handlePublisherMessage, if_neg htype, if_pos hready]
    simp only [handlePublisherMedia, htranscoder, hpusher]
    rfl
  exact ⟨_, _, .message hpub hmessage⟩

/-- What is pushed to a host that can be resolved. -/
def pushSettings : RelaySettings where
  pushUrl := ascii "rtmp://h"

/-- A resolver that answers. -/
def resolved : CallOutcome where
  stale := 0
  resolve := fun _ => .ok [127, 0, 0, 1]
  clientOpen := true

/-- The stream id of who publishes `s` without a `connect`. -/
def sharedId : StreamId where
  stream := ascii "s"

/-- The stream id of who publishes `s` behind a `connect` to `b`. -/
def otherId : StreamId where
  app := ascii "b"
  stream := ascii "s"

theorem createPusher_pushSettings :
    (createPusher pushSettings resolved.resolve sharedId).isSome = true := by
  decide

theorem createPusher_otherId : (createPusher pushSettings resolved.resolve otherId).isSome = true := by
  decide

/-- A manager with two connections. -/
def twoPublishers : RelayManager :=
  { RelayManager.new pushSettings false with
    next := 2
    publishers := Function.update (Function.update (fun _ => none) 0 (some (Publisher.new .exact))) 1
      (some (Publisher.new .exact)) }

theorem exists_run_twoPublishers : ∃ trace,
    Run MessageStep (RelayManager.new pushSettings false) trace twoPublishers ∧
      Machine.outputs trace = [] ∧ ∀ m ∈ trace, m.input = .accept := by
  refine ⟨_, .snoc (.snoc .nil (.accept .exact)) (.accept .exact), rfl, ?_⟩
  intro m hm
  rcases List.mem_pair.1 hm with rfl | rfl <;> rfl

theorem sound_new : (Publisher.new .exact).Sound := by
  simp [Publisher.Sound, Publisher.new, Session.new]

def frame : Message := ⟨Rtmp.MessageType.video.code, 0, 1, [0x17]⟩

/-- **Publishers are not isolated**: one of them publishes under an application of its own, and then
connects to the application of the other one.  Its media are handed to the pusher of the other one. -/
theorem not_isolated : ¬ ∀ (settings : RelaySettings) (transcoder : Bool)
    (trace : List (Moment RelayManager RelayEvent RelayOutput)) (m : RelayManager),
    Run MessageStep (RelayManager.new settings transcoder) trace m →
      Isolated (Machine.outputs trace) := by
  intro hall
  obtain ⟨trace, hrun, -, -⟩ := exists_run_twoPublishers
  obtain ⟨silent₀, calls₀, p₀, pub₀, hpublish₀, -, -⟩ :=
    @exists_publish_step 0 sharedId twoPublishers _ resolved (ascii "s") rfl sound_new (by decide) rfl
      rfl rfl createPusher_pushSettings
  have hne : otherId ≠ sharedId := by decide
  let m₁ := twoPublishers.withPusher sharedId p₀ 0 pub₀
  have hnew : m₁.publishers 1 = some (Publisher.new .exact) :=
    RelayManager.put_publishers_of_ne (by decide)
  obtain ⟨silent₁, pub₁, hconnect₁, -, hsound₁, -, hstream₁⟩ :=
    @exists_connect_step 1 m₁ _ (ascii "b") resolved hnew sound_new (by decide)
  let m₂ := m₁.put m₁.toRelays 1 (some pub₁)
  obtain ⟨silent₂, calls₂, p₂, pub₂, hpublish₂, -, hsound₂, hready₂, hstream₂⟩ :=
    @exists_publish_step 1 otherId m₂ pub₁ resolved (ascii "s") RelayManager.put_publishers_self hsound₁
      (by decide) rfl (by rw [hstream₁]; rfl) (RelayManager.withPusher_of_ne hne p₀ 0 pub₀)
      createPusher_otherId
  let m₃ := m₂.withPusher otherId p₂ 1 pub₂
  obtain ⟨silent₃, pub₃, hconnect₃, hsilent₃, -, hready₃, hstream₃⟩ :=
    @exists_connect_step 1 m₃ pub₂ [] resolved RelayManager.put_publishers_self hsound₂ (by decide)
  let m₄ := m₃.put m₃.toRelays 1 (some pub₃)
  have hid : pub₃.streamId = sharedId := by
    rw [hstream₃, hstream₂]
    rfl
  have hold : m₁.pushers sharedId = some p₀ := RelayManager.withPusher_self p₀ 0 pub₀
  have hkept : m₃.pushers sharedId = m₂.pushers sharedId :=
    RelayManager.withPusher_of_ne hne.symm p₂ 1 pub₂
  have hpusher : m₄.pushers pub₃.streamId = some p₀ := by
    rw [hid]
    exact hkept.trans hold
  obtain ⟨calls, m, hmedia⟩ := @exists_media_step 1 m₄ pub₃ p₀ frame resolved
    RelayManager.put_publishers_self (hready₃.trans hready₂) rfl hpusher (by decide)
  rw [hid] at hmedia
  have hisolated := hall _ _ _ _
    (((((hrun.snoc hpublish₀).snoc hconnect₁).snoc hpublish₂).snoc hconnect₃).snoc hmedia)
  simp only [Machine.outputs_snoc] at hisolated
  -- what it has created last is the pusher of its own application
  have howns := hisolated _ _ [] (List.append_cons _ _ _) rfl
  have hmessage : ∀ e ∈ [RelayOutput.publisher 1 (.message frame)], ¬ e.IsPublished := by
    rintro e he ⟨id, streamId, created, rfl⟩
    simp at he
  have hquiet := isQuiet_map hsilent₃ 1
  rw [owns_append hmessage, owns_append fun e he => (hquiet e he).not_isPublished, ← List.append_assoc]
    at howns
  rcases of_owns_published howns with ⟨-, hstream⟩ | ⟨hother, -⟩
  · exact hne hstream.symm
  · exact hother rfl

/-- A publisher that keeps to itself: it publishes, and its media are pushed. -/
theorem publisher_isolation_single : ∃ trace m,
    Run MessageStep (RelayManager.new pushSettings false) trace m ∧
      (∃ msg calls,
        RelayOutput.publisher 0 (.relayed sharedId msg calls) ∈ Machine.outputs trace) ∧
      (∀ m ∈ trace, Attributed m) ∧ Isolated (Machine.outputs trace) := by
  obtain ⟨trace, hrun, -, haccept⟩ := exists_run_twoPublishers
  obtain ⟨silent, calls, p, pub, hpublish, -, -, hready, hstream⟩ :=
    @exists_publish_step 0 sharedId twoPublishers _ resolved (ascii "s") rfl sound_new (by decide) rfl
      rfl rfl createPusher_pushSettings
  have hpusher : (twoPublishers.withPusher sharedId p 0 pub).pushers pub.streamId = some p := by
    rw [hstream]
    exact RelayManager.withPusher_self p 0 pub
  have htype : frame.typeId ≠ Rtmp.MessageType.commandAMF0.code := by
    decide
  obtain ⟨calls', m', hmedia⟩ := exists_media_step resolved RelayManager.put_publishers_self hready rfl
    hpusher htype
  have hwhole := (hrun.snoc hpublish).snoc hmedia
  obtain ⟨hattributed, hisolated⟩ := publisher_isolation hwhole
  refine ⟨_, m', hwhole, ⟨frame, calls', ?_⟩, hattributed, hisolated ?_⟩
  · rw [Machine.outputs_snoc, hstream]
    simp
  · intro m hm id o msg' pub' cmd hinput hpub hcommand
    rcases List.mem_append.1 hm with hm | hm
    · rcases List.mem_append.1 hm with hm | hm
      · rw [haccept m hm] at hinput
        cases hinput
      · rw [List.mem_singleton.1 hm] at hinput hpub ⊢
        cases hinput
        cases hpub
        have hcmd : publishCmd (ascii "s") = cmd :=
          Option.some.inj ((commandOf_publishMessage (by decide) _).symm.trans hcommand)
        subst hcmd
        refine ⟨fun hname => absurd hname (by decide), fun stream _ hpublish => ⟨?_, .inl rfl⟩⟩
        -- the other connection has not published
        intro id' hid' hheld
        by_cases hone : id' = 1
        · subst hone
          cases hheld
        · have hnone : twoPublishers.held id' = none := by
            simp [RelayManager.held, twoPublishers, Function.update, hid', hone]
          rw [hnone] at hheld
          cases hheld
    · rw [List.mem_singleton.1 hm] at hinput
      cases hinput
      rw [commandOf, if_neg htype] at hcommand
      cases hcommand

end Relay
