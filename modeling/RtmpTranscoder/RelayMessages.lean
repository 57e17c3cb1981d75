/-
**The relay manager, message by message.**

A read of a publisher may carry many messages, and what the manager does with each of them depends on
what it did with the ones before.  Properties of the order of messages are therefore about a finer
machine, whose steps are single messages.  What a read does to the session, and what is sent for the
handshake, are steps of their own, of which nothing else is known.

Main definitions:

* `Relay.RelayEvent`, `Relay.MessageStep` — the finer machine;
* `Relay.RelayManager.put` — the manager, with one publisher exchanged.

Main results:

* `Relay.acts_handleMessages` — the messages of a read, one by one;
* `Relay.acts_onEvents` — a call of the callback of a publisher is a run of the finer machine;
* `Relay.does_of_run` — **what the manager does, it does message by message**.
-/

import RtmpTranscoder.RelayManager

set_option relaxedAutoImplicit false
set_option autoImplicit false

namespace Relay

open Machine (Does Run)
open Rtmp (Failure Message MessageType CommandMessage Session GrowthPolicy EpollEvents)

/-- What happens on a connection besides messages. -/
def PublisherEvent.IsTransport : PublisherEvent → Prop
  | .handshake .. | .chunks _ | .processInput _ => True
  | _ => False

/-- A callback of the client of a pusher. -/
def PusherEvent.IsCallback : PusherEvent → Prop
  | .relay _ => False
  | _ => True

/-- What happens to the manager, message by message. -/
inductive RelayEvent where
  | accept
  | transport (id : ℕ)
  | message (id : ℕ) (o : CallOutcome) (msg : Message)
  | remove (id : ℕ)
  | pusher (streamId : StreamId) (event : PusherEvent)

/-- The manager, with other relays and with a publisher exchanged. -/
def RelayManager.put (m : RelayManager) (r : Relays) (id : ℕ) (pub : Option Publisher) :
    RelayManager :=
  { m with toRelays := r, publishers := Function.update m.publishers id pub }

/-- The manager as a machine whose steps are messages. -/
inductive MessageStep : RelayManager → RelayEvent → List RelayOutput → RelayManager → Prop
  | accept {m : RelayManager} (growth : GrowthPolicy) :
      MessageStep m .accept []
        { m with
          next := m.next + 1
          publishers := Function.update m.publishers m.next (some (Publisher.new growth)) }
  | transport {m : RelayManager} {id : ℕ} {pub : Publisher} (session : Session)
      {events : List PublisherEvent} : m.publishers id = some pub → (∀ e ∈ events, e.IsTransport) →
      MessageStep m (.transport id) (events.map (.publisher id))
        (m.put m.toRelays id (some { pub with session := session }))
  | message {m : RelayManager} {id : ℕ} {pub pub' : Publisher} {o : CallOutcome} {msg : Message}
      {r : Relays} {out : List PublisherEvent} : m.publishers id = some pub →
      handlePublisherMessage m.toRelays pub o msg = .ok (r, pub', out) →
      MessageStep m (.message id o msg) ((.message msg :: out).map (.publisher id))
        (m.put r id (some pub'))
  | remove {m : RelayManager} {id : ℕ} {pub : Publisher} : m.publishers id = some pub →
      MessageStep m (.remove id) [.publisher id .removed] (m.put m.toRelays id none)
  | pusher {m : RelayManager} {streamId : StreamId} {event : PusherEvent} : event.IsCallback →
      MessageStep m (.pusher streamId event) (m.onPusher streamId event).2
        (m.onPusher streamId event).1

namespace RelayManager

variable {m : RelayManager} {r r' : Relays} {id : ℕ} {pub pub' : Option Publisher}

@[simp] theorem put_publishers_self : (m.put r id pub).publishers id = pub := Function.update_self ..

@[simp] theorem put_toRelays : (m.put r id pub).toRelays = r := rfl

@[simp] theorem put_next : (m.put r id pub).next = m.next := rfl

theorem put_publishers_of_ne {id' : ℕ} (h : id' ≠ id) :
    (m.put r id pub).publishers id' = m.publishers id' := Function.update_of_ne h _ _

@[simp] theorem put_put : (m.put r id pub).put r' id pub' = m.put r' id pub' := by
  simp only [put, Function.update_idem]

theorem put_self (h : m.publishers id = pub) : m.put m.toRelays id pub = m := by
  subst h
  simp only [put, Function.update_eq_self]

end RelayManager

/-! ### The messages of a read -/

/-- The manager acts for a publisher, message by message. -/
def Acts (m : RelayManager) (id : ℕ) (out : List PublisherEvent) (r : Relays)
    (next : Option Publisher) : Prop :=
  Does MessageStep m (out.map (.publisher id)) (m.put r id next)

variable {m : RelayManager} {id : ℕ} {pub : Publisher} {data : List UInt8} {r : Relays}
  {next : Option Publisher} {out : List PublisherEvent}

theorem Acts.nil (hpub : m.publishers id = some pub) : Acts m id [] m.toRelays (some pub) := by
  rw [Acts, RelayManager.put_self hpub]
  exact Does.nil

theorem Acts.trans {r₁ : Relays} {next₁ : Option Publisher} {out₁ : List PublisherEvent}
    (h₁ : Acts m id out₁ r₁ next₁) (h₂ : Acts (m.put r₁ id next₁) id out r next) :
    Acts m id (out₁ ++ out) r next := by
  have := Does.trans h₁ h₂
  rwa [RelayManager.put_put, ← List.map_append] at this

theorem Acts.removed (hpub : m.publishers id = some pub) : Acts m id [.removed] m.toRelays none :=
  Does.of_step (.remove hpub)

/-- What is sent for the handshake, and what a read does to the session. -/
theorem Acts.transport (hpub : m.publishers id = some pub) (session : Session)
    {events : List PublisherEvent} (h : ∀ e ∈ events, e.IsTransport) :
    Acts m id events m.toRelays (some { pub with session := session }) :=
  Does.of_step (.transport session hpub h)

/-- **The messages of a read, one by one.** -/
theorem acts_handleMessages {calls : ℕ → CallOutcome} {messages : List Message} {pub' : Publisher}
    (hpub : m.publishers id = some pub)
    (h : handleMessages m.toRelays pub calls messages = .ok (r, pub', out)) :
    Acts m id out r (some pub') := by
  induction messages generalizing m pub calls out with
  | nil =>
      obtain ⟨rfl, rfl, rfl⟩ := ok_inj h
      exact .nil hpub
  | cons msg messages ih =>
      obtain ⟨r₁, pub₁, out₁, out₂, hfirst, hrest, rfl⟩ := handleMessages_cons h
      have hstep : Acts m id (.message msg :: out₁) r₁ (some pub₁) :=
        Does.of_step (.message hpub hfirst)
      exact hstep.trans (ih (m := m.put r₁ id (some pub₁)) RelayManager.put_publishers_self hrest)

/-! ### Calls of the callback -/

/-- What a part of the callback has done to a publisher: its session has changed, or it is removed. -/
inductive Transported (pub : Publisher) : Option Publisher → List PublisherEvent → Prop
  | kept {session : Session} {events : List PublisherEvent} : (∀ e ∈ events, e.IsTransport) →
      Transported pub (some { pub with session := session }) events
  | removed {events : List PublisherEvent} : (∀ e ∈ events, e.IsTransport) →
      Transported pub none (events ++ [.removed])

/-- What a part of the callback does is a run of the finer machine. -/
theorem Transported.acts (h : Transported pub next out) (hpub : m.publishers id = some pub) :
    Acts m id out m.toRelays next := by
  cases h with
  | kept hevents => exact .transport hpub _ hevents
  | removed hevents =>
      exact (Acts.transport hpub pub.session hevents).trans
        (.removed RelayManager.put_publishers_self)

theorem transported_sendHandshakeResponse {o : PublisherOutcome}
    (h : pub.sendHandshakeResponse data o = .ok (next, out)) : Transported pub next out := by
  unfold Publisher.sendHandshakeResponse at h
  split at h
  · split at h
    · cases h
    · split at h
      · obtain ⟨rfl, rfl⟩ := Prod.mk.inj (Except.ok.inj h)
        exact @Transported.removed pub [_] (by simp [PublisherEvent.IsTransport])
      · obtain ⟨rfl, rfl⟩ := Prod.mk.inj (Except.ok.inj h)
        exact .kept (by simp [PublisherEvent.IsTransport])
  · obtain ⟨rfl, rfl⟩ := Prod.mk.inj (Except.ok.inj h)
    exact @Transported.kept pub pub.session [] (by simp)

theorem transported_sendProtocolMessages {written : Except Failure ℕ}
    (h : pub.sendProtocolMessages written = .ok (next, out)) : Transported pub next out := by
  unfold Publisher.sendProtocolMessages at h
  split at h
  · obtain ⟨s₁, -, hbandwidth⟩ := bind_ok h
    obtain ⟨s₂, -, hsize⟩ := bind_ok hbandwidth
    obtain ⟨s₃, -, hsent⟩ := bind_ok hsize
    simp only [pure, Except.pure] at hsent
    split at hsent
    · obtain ⟨rfl, rfl⟩ := Prod.mk.inj (Except.ok.inj hsent)
      exact .kept (by simp)
    · split at hsent
      · obtain ⟨rfl, rfl⟩ := Prod.mk.inj (Except.ok.inj hsent)
        exact @Transported.removed pub [_] (by simp [PublisherEvent.IsTransport])
      · obtain ⟨rfl, rfl⟩ := Prod.mk.inj (Except.ok.inj hsent)
        exact .kept (by simp [PublisherEvent.IsTransport])
  · obtain ⟨rfl, rfl⟩ := Prod.mk.inj (Except.ok.inj h)
    exact @Transported.kept pub pub.session [] (by simp)

theorem acts_processInput {calls : ℕ → CallOutcome} (hpub : m.publishers id = some pub)
    (h : pub.processInput m.toRelays data calls = .ok (r, next, out)) : Acts m id out r next := by
  obtain ⟨⟨session, messages, result⟩, hinput⟩ : ∃ x, pub.session.processInput data = x := ⟨_, rfl⟩
  simp only [Publisher.processInput, hinput] at h
  cases hmessages : handleMessages m.toRelays { pub with session := session } calls messages with
  | error f =>
      rw [hmessages] at h
      cases h
  | ok handled =>
      obtain ⟨r', pub', events⟩ := handled
      rw [hmessages] at h
      have hevent : ∀ e ∈ [PublisherEvent.processInput data], e.IsTransport := by
        simp [PublisherEvent.IsTransport]
      have hhandled := (Acts.transport hpub session hevent).trans
        (acts_handleMessages RelayManager.put_publishers_self hmessages)
      cases result with
      | error f =>
          obtain ⟨rfl, rfl, rfl⟩ := ok_inj h
          exact hhandled.trans (.removed RelayManager.put_publishers_self)
      | ok n =>
          obtain ⟨rfl, rfl, rfl⟩ := ok_inj h
          exact hhandled

theorem acts_readHandshake {o : PublisherOutcome} (hpub : m.publishers id = some pub)
    (h : pub.readHandshake m.toRelays data o = .ok (r, next, out)) : Acts m id out r next := by
  unfold Publisher.readHandshake at h
  split at h
  · obtain ⟨rfl, rfl, rfl⟩ := ok_inj h
    exact .removed hpub
  · rename_i handshake consumed htake
    simp only at h
    have htaken : Acts m id [] m.toRelays
        (some { pub with session := { pub.session with handshake := handshake } }) :=
      .transport hpub _ (by simp)
    split at h
    · cases h
    · rename_i out₁ hresponse
      obtain ⟨rfl, rfl, rfl⟩ := ok_inj h
      exact htaken.trans ((transported_sendHandshakeResponse hresponse).acts
        RelayManager.put_publishers_self)
    · rename_i pub₁ out₁ hresponse
      have hanswered := htaken.trans ((transported_sendHandshakeResponse hresponse).acts
        RelayManager.put_publishers_self)
      rw [List.nil_append] at hanswered
      split at h
      · cases h
      · rename_i out₂ hprotocol
        obtain ⟨rfl, rfl, rfl⟩ := ok_inj h
        exact hanswered.trans ((transported_sendProtocolMessages hprotocol).acts
          RelayManager.put_publishers_self)
      · rename_i pub₂ out₂ hprotocol
        have hsent := hanswered.trans ((transported_sendProtocolMessages hprotocol).acts
          RelayManager.put_publishers_self)
        split at h
        · split at h
          · cases h
          · rename_i hinput
            obtain ⟨rfl, rfl, rfl⟩ := ok_inj h
            exact hsent.trans (acts_processInput RelayManager.put_publishers_self hinput)
        · obtain ⟨rfl, rfl, rfl⟩ := ok_inj h
          exact hsent

/-- **A call of the callback of a publisher is a run of the finer machine.** -/
theorem acts_onEvents {mask : EpollEvents} {o : PublisherOutcome}
    (hpub : m.publishers id = some pub)
    (h : pub.onEvents m.toRelays mask o = .ok (r, next, out)) : Acts m id out r next := by
  have hremoved (heq : Except.ok (m.toRelays, none, [.removed])
      = (.ok (r, next, out) : Except Failure _)) : Acts m id out r next := by
    obtain ⟨rfl, rfl, rfl⟩ := ok_inj heq
    exact .removed hpub
  unfold Publisher.onEvents at h
  split at h
  · exact hremoved h
  · split at h
    · split at h
      · exact hremoved h
      · exact hremoved h
      · split at h
        · exact acts_readHandshake hpub h
        · exact acts_processInput hpub h
    · obtain ⟨rfl, rfl, rfl⟩ := ok_inj h
      exact .nil hpub

/-- **What the manager does, it does message by message.** -/
theorem does_of_run {m m' : RelayManager}
    {trace : List (Machine.Moment RelayManager RelayInput RelayOutput)}
    (hrun : Run RelayManager.machine m trace m') :
    Does MessageStep m (Machine.outputs trace) m' := by
  refine hrun.refine fun {m i out m'} hstep => ?_
  cases i with
  | accept growth =>
      obtain ⟨rfl, rfl⟩ := Prod.mk.inj (Except.ok.inj hstep)
      exact .of_step (.accept growth)
  | events id mask o =>
      rcases perform_events hstep with ⟨-, rfl, rfl⟩ | ⟨pub, r, pub', events, hpub, hcall, rfl, rfl⟩
      · exact .nil
      · exact acts_onEvents hpub hcall
  | pusherConnected streamId =>
      obtain ⟨rfl, rfl⟩ := Prod.mk.inj (Except.ok.inj hstep)
      exact .of_step (@MessageStep.pusher _ streamId .connected trivial)
  | pusherMessage streamId stale msg =>
      obtain ⟨rfl, rfl⟩ := Prod.mk.inj (Except.ok.inj hstep)
      exact .of_step (@MessageStep.pusher _ streamId (.message stale msg) trivial)
  | pusherDisconnected streamId resolve =>
      obtain ⟨rfl, rfl⟩ := Prod.mk.inj (Except.ok.inj hstep)
      exact .of_step (@MessageStep.pusher _ streamId (.disconnected resolve) trivial)

end Relay
