/-
**What a publisher is answered depends on nobody else.**

The handlers of a publisher look at its session, and at what all publishers share: the settings, the
pushers and whether there is a transcoder.  What is shared decides where the media go, and nothing else:
not a byte that is handed to the socket of a publisher depends on it, nor when the connection ends.  So
a publisher cannot find out from its own connection what the program has been set up for, nor whether
anybody else is there.

To an observer who looks at one connection, nothing is noticed of the others and of the pushers, and
managers that know the same of the connection are the same, whatever else they have.

Main definitions:

* `Relay.PublisherEvent.apparent` — what is seen of an event by the publisher;
* `Relay.PublisherOutcome.Alike` — outcomes that differ in what is known of pushers and their addresses;
* `Relay.LooksAlike` — handlers that return what their publisher cannot tell apart;
* `Relay.RelayManager.atConnection` — the observer.

Main results:

* `Relay.Publisher.onEvents_apparent` — the callback of a publisher does the same whatever the relays;
* `Relay.RelayManager.connection_isolated` — **what a publisher is answered depends on what it sends
  only**.
-/

import RtmpTranscoder.Noninterference
import RtmpTranscoder.ServerHandshake

set_option relaxedAutoImplicit false
set_option autoImplicit false

namespace Relay

open Machine (Observer Run)
open Rtmp (Failure Message CommandMessage EpollEvents)
open Text

/-- What is seen of an event by its publisher: everything but what becomes of the media. -/
def PublisherEvent.apparent : PublisherEvent → Option PublisherEvent
  | .published streamId _ => some (.published streamId none)
  | .relayed _ _ _ => none
  | .transcoder _ => none
  | event => some event

/-- Handlers that both return, return what their publisher cannot tell apart. -/
def LooksAlike {α : Type} (x y : Except Failure (Relays × α × List PublisherEvent)) : Prop :=
  ∀ r a out r' a' out', x = .ok (r, a, out) → y = .ok (r', a', out') →
    a = a' ∧ out.filterMap PublisherEvent.apparent = out'.filterMap PublisherEvent.apparent

/-- What two calls of a handler find: the same, but for what is known of pushers and their addresses. -/
def CallsAlike (calls calls' : ℕ → CallOutcome) : Prop := ∀ n, (calls n).stale = (calls' n).stale

/-- What two calls of the callback find: the same, but for what is known of pushers and their addresses. -/
structure PublisherOutcome.Alike (o o' : PublisherOutcome) : Prop where
  read : o.read = o'.read
  random : o.random = o'.random
  responseWritten : o.responseWritten = o'.responseWritten
  protocolWritten : o.protocolWritten = o'.protocolWritten
  calls : CallsAlike o.calls o'.calls

/-! ### Handlers that go on -/

section Bind

variable {α β : Type}

theorem LooksAlike.bind_same {x : Except Failure β}
    {f g : β → Except Failure (Relays × α × List PublisherEvent)}
    (h : ∀ b, LooksAlike (f b) (g b)) : LooksAlike (x >>= f) (x >>= g) := by
  intro r a out r' a' out' hf hg
  obtain ⟨b, rfl, hfb⟩ := bind_ok hf
  exact h b r a out r' a' out' hfb hg

theorem LooksAlike.bind {x y : Except Failure (Relays × β × List PublisherEvent)}
    {f g : Relays × β × List PublisherEvent → Except Failure (Relays × α × List PublisherEvent)}
    (hxy : LooksAlike x y)
    (h : ∀ {r r' b out out'},
      out.filterMap PublisherEvent.apparent = out'.filterMap PublisherEvent.apparent →
      LooksAlike (f (r, b, out)) (g (r', b, out'))) :
    LooksAlike (x >>= f) (y >>= g) := by
  intro r a out r' a' out' hf hg
  obtain ⟨⟨r₁, b, out₁⟩, hx, hfb⟩ := bind_ok hf
  obtain ⟨⟨r₂, b', out₂⟩, hy, hgb⟩ := bind_ok hg
  obtain ⟨rfl, hseen⟩ := hxy _ _ _ _ _ _ hx hy
  exact h hseen _ _ _ _ _ _ hfb hgb

theorem LooksAlike.ok {r r' : Relays} {a : α} {out out' : List PublisherEvent}
    (h : out.filterMap PublisherEvent.apparent = out'.filterMap PublisherEvent.apparent) :
    LooksAlike (.ok (r, a, out)) (.ok (r', a, out')) := by
  intro r₁ a₁ out₁ r₂ a₂ out₂ hx hy
  obtain ⟨-, rfl, rfl⟩ := ok_inj hx
  obtain ⟨-, rfl, rfl⟩ := ok_inj hy
  exact ⟨rfl, h⟩

theorem LooksAlike.error {f g : Failure} :
    LooksAlike (.error f : Except Failure (Relays × α × List PublisherEvent)) (.error g) := by
  intro r a out r' a' out' hx
  cases hx

end Bind

/-! ### Messages -/

variable {r r' : Relays}

/-- Of what `publish` starts, the name of the stream is seen. -/
theorem apparent_startRelaying {o : CallOutcome} {streamId : StreamId} {started : List PublisherEvent}
    (h : startRelaying r o streamId = .ok (r', started)) :
    started.filterMap PublisherEvent.apparent = [.published streamId none] := by
  rcases startRelaying_cases h with ⟨calls, -, rfl, -⟩ | ⟨p, calls, -, -, -, -, rfl⟩
  · have hquiet : (calls.map PublisherEvent.transcoder).filterMap PublisherEvent.apparent = [] := by
      rw [List.filterMap_eq_nil_iff]
      intro e he
      obtain ⟨call, -, rfl⟩ := List.mem_map.1 he
      rfl
    exact congrArg (PublisherEvent.published streamId none :: ·) hquiet
  · rfl

theorem apparent_handlePublisherMedia (r : Relays) (pub : Publisher) (msg : Message) :
    (handlePublisherMedia r pub msg).2.filterMap PublisherEvent.apparent = [] := by
  unfold handlePublisherMedia
  split
  · rw [List.filterMap_eq_nil_iff]
    intro e he
    obtain ⟨call, -, rfl⟩ := List.mem_map.1 he
    rfl
  · split <;> rfl

theorem handlePublisherCommand_apparent (pub : Publisher) (o o' : CallOutcome) (cmd : CommandMessage) :
    LooksAlike (handlePublisherCommand r pub o cmd) (handlePublisherCommand r' pub o' cmd) := by
  unfold handlePublisherCommand
  split
  · exact .bind_same fun _ => .ok rfl
  · split
    · exact .bind_same fun _ => .ok rfl
    · split
      · split
        · exact .ok rfl
        · refine .bind_same fun answer => ?_
          intro r₁ a₁ out₁ r₂ a₂ out₂ hx hy
          obtain ⟨⟨r₃, started⟩, hstart, hreturn⟩ := bind_ok hx
          obtain ⟨⟨r₄, started'⟩, hstart', hreturn'⟩ := bind_ok hy
          obtain ⟨-, rfl, rfl⟩ := ok_inj hreturn
          obtain ⟨-, rfl, rfl⟩ := ok_inj hreturn'
          refine ⟨rfl, ?_⟩
          rw [List.filterMap_append, List.filterMap_append, apparent_startRelaying hstart,
            apparent_startRelaying hstart']
      · exact .ok rfl

theorem handlePublisherMessage_apparent (pub : Publisher) {o o' : CallOutcome}
    (h : o.stale = o'.stale) (msg : Message) :
    LooksAlike (handlePublisherMessage r pub o msg) (handlePublisherMessage r' pub o' msg) := by
  unfold handlePublisherMessage
  rw [h]
  split
  · split
    · exact .ok rfl
    · exact handlePublisherCommand_apparent pub _ _ _
  · split
    · exact .ok ((apparent_handlePublisherMedia r pub msg).trans
        (apparent_handlePublisherMedia r' pub msg).symm)
    · exact .ok rfl

/-- **The messages of a read are handled alike.** -/
theorem handleMessages_apparent (messages : List Message) (pub : Publisher)
    {calls calls' : ℕ → CallOutcome} (h : CallsAlike calls calls') :
    LooksAlike (handleMessages r pub calls messages) (handleMessages r' pub calls' messages) := by
  induction messages generalizing r r' pub calls calls' with
  | nil => exact .ok rfl
  | cons msg messages ih =>
      unfold handleMessages
      refine (handlePublisherMessage_apparent pub (h 0) msg).bind fun hseen => ?_
      refine (ih _ fun n => h (n + 1)).bind fun hrest => .ok ?_
      simp only [List.cons_append, List.filterMap_cons, List.filterMap_append, hseen, hrest]

/-! ### The callback -/

namespace Publisher

theorem processInput_apparent (pub : Publisher) (data : List UInt8) {calls calls' : ℕ → CallOutcome}
    (h : CallsAlike calls calls') :
    LooksAlike (pub.processInput r data calls) (pub.processInput r' data calls') := by
  unfold processInput
  obtain ⟨session, messages, result⟩ := pub.session.processInput data
  refine (handleMessages_apparent _ _ h).bind fun hseen => ?_
  cases result with
  | error failure =>
      refine .ok ?_
      simp only [List.cons_append, List.filterMap_cons, List.filterMap_append, hseen]
  | ok consumed =>
      refine .ok ?_
      simp only [List.filterMap_cons, hseen]

theorem sendHandshakeResponse_alike (pub : Publisher) (data : List UInt8) {o o' : PublisherOutcome}
    (h : o.Alike o') : pub.sendHandshakeResponse data o = pub.sendHandshakeResponse data o' := by
  unfold sendHandshakeResponse
  rw [h.random, h.responseWritten]

theorem readHandshake_apparent (pub : Publisher) (data : List UInt8) {o o' : PublisherOutcome}
    (h : o.Alike o') : LooksAlike (pub.readHandshake r data o) (pub.readHandshake r' data o') := by
  unfold readHandshake
  obtain ⟨handshake, result⟩ := pub.session.handshake.processClientHandshake data
  cases result with
  | error failure => exact .ok rfl
  | ok consumed =>
      simp only [sendHandshakeResponse_alike _ data h, h.protocolWritten]
      split
      · exact .error
      · exact .ok rfl
      · rename_i pub₁ out₁ hresponse
        split
        · exact .error
        · exact .ok rfl
        · rename_i pub₂ out₂ hprotocol
          split
          · have hinput := @processInput_apparent r r' pub₂ (data.drop consumed) _ _ h.calls
            cases hs : pub₂.processInput r (data.drop consumed) o.calls with
            | error failure =>
                intro r₁ a₁ out₁ r₂ a₂ out₂ hx
                cases hx
            | ok result =>
                cases ht : pub₂.processInput r' (data.drop consumed) o'.calls with
                | error failure =>
                    intro r₁ a₁ out₁ r₂ a₂ out₂ hx hy
                    cases hy
                | ok result' =>
                    obtain ⟨r₃, pub₃, out₃⟩ := result
                    obtain ⟨r₄, pub₄, out₄⟩ := result'
                    obtain ⟨rfl, hseen⟩ := hinput _ _ _ _ _ _ hs ht
                    refine .ok ?_
                    simp only [List.filterMap_append, hseen]
          · exact .ok rfl

/-- **The callback of a publisher does the same, whatever the relays**, if it returns. -/
theorem onEvents_apparent (pub : Publisher) (mask : EpollEvents) {o o' : PublisherOutcome}
    (h : o.Alike o') : LooksAlike (pub.onEvents r mask o) (pub.onEvents r' mask o') := by
  unfold onEvents
  rw [h.read]
  split
  · exact .ok rfl
  · split
    · split
      · exact .ok rfl
      · exact .ok rfl
      · split
        · exact readHandshake_apparent pub _ h
        · exact processInput_apparent pub _ h.calls
    · exact .ok rfl

end Publisher

/-! ### The observer -/

/-- The same is asked of the connection `id`. -/
inductive RelayInput.AlikeAt (id : ℕ) : RelayInput → RelayInput → Prop
  | events {mask : EpollEvents} {o o' : PublisherOutcome} : o.Alike o' →
      RelayInput.AlikeAt id (.events id mask o) (.events id mask o')

/-- Something is asked of the connection `id`. -/
def RelayInput.isFor (id : ℕ) : RelayInput → Bool
  | .events id' _ _ => id' == id
  | _ => false

/-- What is seen of what the manager does on the connection `id`. -/
def RelayOutput.apparentAt (id : ℕ) : RelayOutput → Option PublisherEvent
  | .publisher id' event => if id' = id then event.apparent else none
  | .pusher _ _ => none

namespace RelayManager

/-- Two managers that have accepted the connection `id`, and know the same of it. -/
structure AgreeAt (id : ℕ) (m n : RelayManager) : Prop where
  publisher : m.publishers id = n.publishers id
  left : id < m.next
  right : id < n.next

/-- Whoever looks at the connection `id`. -/
def atConnection (id : ℕ) : Observer RelayManager RelayInput RelayOutput PublisherEvent where
  same := AgreeAt id
  notices := RelayInput.isFor id
  alike := RelayInput.AlikeAt id
  sees := RelayOutput.apparentAt id

variable {id : ℕ} {m m' n n' : RelayManager} {i : RelayInput} {out out' : List RelayOutput}

/-- What is seen of events on the connection `id`. -/
theorem filterMap_apparentAt_self (events : List PublisherEvent) :
    (events.map (.publisher id)).filterMap (RelayOutput.apparentAt id) =
      events.filterMap PublisherEvent.apparent := by
  rw [List.filterMap_map]
  exact congrArg (fun f => events.filterMap f) (funext fun _ => if_pos rfl)

theorem filterMap_apparentAt_ne {id' : ℕ} (h : id' ≠ id) (events : List PublisherEvent) :
    (events.map (.publisher id')).filterMap (RelayOutput.apparentAt id) = [] := by
  rw [List.filterMap_eq_nil_iff]
  intro e he
  obtain ⟨event, -, rfl⟩ := List.mem_map.1 he
  exact if_neg h

/-- A callback of the client of a pusher leaves the publishers alone. -/
theorem onPusher_apparentAt (m : RelayManager) (streamId : StreamId) (event : PusherEvent) :
    (m.onPusher streamId event).1.publishers = m.publishers ∧
      (m.onPusher streamId event).1.next = m.next ∧
      (m.onPusher streamId event).2.filterMap (RelayOutput.apparentAt id) = [] := by
  unfold onPusher
  split
  · exact ⟨rfl, rfl, rfl⟩
  · exact ⟨rfl, rfl, rfl⟩

/-- What the manager does for others does not change the connection `id`. -/
theorem agreeAt_of_other (h : AgreeAt id m n) (hother : i.isFor id = false)
    (hm : m.perform i = .ok (m', out)) :
    AgreeAt id m' n ∧ out.filterMap (RelayOutput.apparentAt id) = [] := by
  have hpusher : ∀ streamId event, m.onPusher streamId event = (m', out) →
      AgreeAt id m' n ∧ out.filterMap (RelayOutput.apparentAt id) = [] := by
    intro streamId event heq
    obtain ⟨hpublishers, hnext, hquiet⟩ := @onPusher_apparentAt id m streamId event
    rw [heq] at hpublishers hnext hquiet
    exact ⟨⟨hpublishers ▸ h.publisher, hnext ▸ h.left, h.right⟩, hquiet⟩
  cases i with
  | accept growth =>
      obtain ⟨rfl, rfl⟩ := Prod.mk.inj (Except.ok.inj hm)
      refine ⟨⟨?_, Nat.lt_succ_of_lt h.left, h.right⟩, rfl⟩
      rw [← h.publisher]
      exact Function.update_of_ne h.left.ne _ _
  | events id' mask o =>
      have hne : id' ≠ id := ne_of_beq_false hother
      unfold perform at hm
      cases hpub : m.publishers id' with
      | none =>
          simp only [hpub] at hm
          obtain ⟨rfl, rfl⟩ := Prod.mk.inj (Except.ok.inj hm)
          exact ⟨h, rfl⟩
      | some pub =>
          simp only [hpub] at hm
          cases hevents : pub.onEvents m.toRelays mask o with
          | error failure =>
              rw [hevents] at hm
              cases hm
          | ok result =>
              rw [hevents] at hm
              obtain ⟨rfl, rfl⟩ := Prod.mk.inj (Except.ok.inj hm)
              refine ⟨⟨?_, h.left, h.right⟩, filterMap_apparentAt_ne hne _⟩
              rw [← h.publisher]
              exact Function.update_of_ne hne.symm _ _
  | pusherConnected streamId => exact hpusher streamId _ (Except.ok.inj hm)
  | pusherMessage streamId stale msg => exact hpusher streamId _ (Except.ok.inj hm)
  | pusherDisconnected streamId resolve => exact hpusher streamId _ (Except.ok.inj hm)

/-- What is asked of the connection `id` is handled alike. -/
theorem perform_alikeAt {j : RelayInput} (h : AgreeAt id m n) (halike : RelayInput.AlikeAt id i j)
    (hm : m.perform i = .ok (m', out)) (hn : n.perform j = .ok (n', out')) :
    AgreeAt id m' n' ∧
      out.filterMap (RelayOutput.apparentAt id) = out'.filterMap (RelayOutput.apparentAt id) := by
  cases halike with
  | @events mask o o' ho =>
      unfold perform at hm hn
      simp only [← h.publisher] at hm hn
      cases hpub : m.publishers id with
      | none =>
          simp only [hpub] at hm hn
          obtain ⟨rfl, rfl⟩ := Prod.mk.inj (Except.ok.inj hm)
          obtain ⟨rfl, rfl⟩ := Prod.mk.inj (Except.ok.inj hn)
          exact ⟨h, rfl⟩
      | some pub =>
          simp only [hpub] at hm hn
          have hevents := @Publisher.onEvents_apparent m.toRelays n.toRelays pub mask _ _ ho
          cases hs : pub.onEvents m.toRelays mask o with
          | error failure =>
              rw [hs] at hm
              cases hm
          | ok result =>
              cases ht : pub.onEvents n.toRelays mask o' with
              | error failure =>
                  rw [ht] at hn
                  cases hn
              | ok result' =>
                  rw [hs] at hm
                  rw [ht] at hn
                  obtain ⟨hnext, hseen⟩ := hevents _ _ _ _ _ _ hs ht
                  obtain ⟨rfl, rfl⟩ := Prod.mk.inj (Except.ok.inj hm)
                  obtain ⟨rfl, rfl⟩ := Prod.mk.inj (Except.ok.inj hn)
                  refine ⟨⟨?_, h.left, h.right⟩, ?_⟩
                  · simpa only [Function.update_self] using hnext
                  · simpa only [filterMap_apparentAt_self] using hseen

/-- **Whatever is done for others is not noticed on the connection `id`.** -/
theorem unwinds_atConnection (id : ℕ) : (atConnection id).Unwinds perform where
  symm h := ⟨h.publisher.symm, h.right, h.left⟩
  unnoticed_step h hnotices hm := agreeAt_of_other h hnotices hm
  noticed_step h halike hm hn := perform_alikeAt h halike hm hn

/-- **What a publisher is answered depends on what it sends only.**  Two managers that have accepted a
connection, and know the same of it, do the same on it if the same is asked of it, whatever they have
been set up for, and whatever happens to their other publishers and to their pushers. -/
theorem connection_isolated {id : ℕ} {m m' n n' : RelayManager}
    {trace trace' : List (Machine.Moment RelayManager RelayInput RelayOutput)}
    (hm : id < m.next) (hn : id < n.next) (hpublisher : m.publishers id = n.publishers id)
    (hrun : Run machine m trace m') (hrun' : Run machine n trace' n')
    (hinputs : List.Forall₂ (RelayInput.AlikeAt id)
      ((Machine.inputs trace).filter (RelayInput.isFor id))
      ((Machine.inputs trace').filter (RelayInput.isFor id))) :
    m'.publishers id = n'.publishers id ∧
      (Machine.outputs trace).filterMap (RelayOutput.apparentAt id) =
        (Machine.outputs trace').filterMap (RelayOutput.apparentAt id) := by
  obtain ⟨hagree, hseen⟩ :=
    (unwinds_atConnection id).runs_alike hrun hrun' ⟨hpublisher, hm, hn⟩ hinputs
  exact ⟨hagree.publisher, hseen⟩

/-- A connection that reads C0, C1 and C2, with another one beside it, and with a transcoder instead. -/
theorem connection_isolated_acceptedOne : ∃ trace m' trace' n',
    Run machine acceptedOne trace m' ∧ Run machine { acceptedOne with transcoder := true } trace' n' ∧
    Machine.inputs trace = [.accept .exact,
      .events 0 readable (readsData (hello 1536) (by rw [length_hello]; omega)),
      .events 1 readable (readsData (hello 1) (by rw [length_hello]; omega))] ∧
    Machine.inputs trace' =
      [.events 0 readable (readsData (hello 1536) (by rw [length_hello]; omega))] ∧
    m'.publishers 0 = n'.publishers 0 ∧
      (Machine.outputs trace).filterMap (RelayOutput.apparentAt 0) =
        (Machine.outputs trace').filterMap (RelayOutput.apparentAt 0) := by
  have hregular : ({ acceptedOne with transcoder := true } : RelayManager).Regular :=
    regular_acceptedOne
  obtain ⟨trace, m', hrun, hinputs, -⟩ := regular_acceptedOne.exists_run pushless_acceptedOne [.accept .exact,
    .events 0 readable (readsData (hello 1536) (by rw [length_hello]; omega)),
    .events 1 readable (readsData (hello 1) (by rw [length_hello]; omega))]
  obtain ⟨trace', n', hrun', hinputs', -⟩ := hregular.exists_run ⟨.inl rfl, fun _ => rfl⟩
    [.events 0 readable (readsData (hello 1536) (by rw [length_hello]; omega))]
  have halike : List.Forall₂ (RelayInput.AlikeAt 0)
      ((Machine.inputs trace).filter (RelayInput.isFor 0))
      ((Machine.inputs trace').filter (RelayInput.isFor 0)) := by
    rw [hinputs, hinputs']
    exact .cons (.events ⟨rfl, rfl, rfl, rfl, fun _ => rfl⟩) .nil
  exact ⟨trace, m', trace', n', hrun, hrun', hinputs, hinputs',
    connection_isolated (m := acceptedOne) (n := { acceptedOne with transcoder := true }) Nat.one_pos
      Nat.one_pos rfl hrun hrun' halike⟩

end RelayManager

end Relay
