/-
**What the manager may do.**

With a transcoder the manager has no pushers, and without one it asks nothing of it; without a URL to
push to it has none either.  And as long as nobody has published it does neither: media are looked at
behind `publish` only, and so are pushers created.  Each of these holds of a message, and therefore of
every run.

Main definitions:

* `Relay.RelayOutput.IsPush`, `Relay.RelayOutput.IsTranscoding` — what goes upstream, and what goes to
  the transcoder;
* `Relay.RelayManager.Confined` — what a manager keeps to;
* `Relay.RelayManager.Unpublished` — a manager of whose publishers none has published.

Main results:

* `Relay.Effect.confined`, `Relay.confined_of_run` — **what is settled before the server is started
  stays settled**, message by message and over every run;
* `Relay.Effect.unpublished`, `Relay.unpublished_of_run` — **before `publish` there is nothing**.
-/

import RtmpTranscoder.PublisherIsolation

set_option relaxedAutoImplicit false
set_option autoImplicit false

namespace Relay

open Machine (Moment Run)
open Rtmp (Message)

/-- Something is pushed, or a client is asked to. -/
def PublisherEvent.IsPush : PublisherEvent → Prop
  | .published _ created => created.isSome = true
  | .relayed .. => True
  | _ => False

/-- The transcoder is asked something. -/
def PublisherEvent.IsTranscoding : PublisherEvent → Prop
  | .transcoder _ => True
  | _ => False

/-- Something is pushed, or a client is asked to. -/
def RelayOutput.IsPush : RelayOutput → Prop
  | .publisher _ e => e.IsPush
  | .pusher .. => True

/-- The transcoder is asked something. -/
def RelayOutput.IsTranscoding : RelayOutput → Prop
  | .publisher _ e => e.IsTranscoding
  | .pusher .. => False

/-- What the handlers keep of the relays, and what they cannot do. -/
structure Confined (r r' : Relays) (out : List PublisherEvent) : Prop where
  transcoder : r'.transcoder = r.transcoder
  pushless : Pushless r → Pushless r' ∧ ∀ e ∈ out, ¬ e.IsPush
  untranscoded : r.transcoder = false → ∀ e ∈ out, ¬ e.IsTranscoding

variable {r r' : Relays} {pub pub' : Publisher} {o : CallOutcome} {msg : Message}
  {out : List PublisherEvent}

theorem Confined.of_silent (h : ∀ e ∈ out, ¬ e.IsPush ∧ ¬ e.IsTranscoding) : Confined r r out :=
  ⟨rfl, fun hpushless => ⟨hpushless, fun e he => (h e he).1⟩, fun _ e he => (h e he).2⟩

theorem PublisherEvent.IsChunks.not_busy {e : PublisherEvent} (h : e.IsChunks) :
    ¬ e.IsPush ∧ ¬ e.IsTranscoding := by
  obtain ⟨data, rfl⟩ := h
  exact ⟨id, id⟩

theorem PublisherEvent.IsTransport.not_busy {e : PublisherEvent} (h : e.IsTransport) :
    ¬ e.IsPush ∧ ¬ e.IsTranscoding := by
  cases e with
  | handshake data written => exact ⟨id, id⟩
  | chunks data => exact ⟨id, id⟩
  | processInput data => exact ⟨id, id⟩
  | message msg => exact h.elim
  | published streamId created => exact h.elim
  | relayed streamId msg calls => exact h.elim
  | transcoder call => exact h.elim
  | removed => exact h.elim

theorem confined_startRelaying {streamId : StreamId} (h : startRelaying r o streamId = .ok (r', out)) :
    Confined r r' out := by
  rcases startRelaying_cases h with ⟨calls, rfl, rfl, hnone⟩ |
    ⟨p, calls, hcreate, htranscoder, -, rfl, rfl⟩
  · refine ⟨rfl, fun hpushless => ⟨hpushless, fun e he => ?_⟩, fun hfalse e he => ?_⟩
    · rcases List.mem_cons.1 he with rfl | hcall
      · exact Bool.false_ne_true
      · obtain ⟨call, -, rfl⟩ := List.mem_map.1 hcall
        exact id
    · rw [(hnone hfalse).1, List.map_nil] at he
      rw [List.mem_singleton.1 he]
      exact id
  · refine ⟨rfl, fun hpushless => ?_, fun _ e he => ?_⟩
    · rcases hpushless.cannot with htrue | hurl
      · rw [htranscoder] at htrue
        cases htrue
      · rw [createPusher, hurl] at hcreate
        cases hcreate
    · rw [List.mem_singleton.1 he]
      exact id

theorem confined_handlePublisherMedia (r : Relays) (pub : Publisher) (msg : Message) :
    Confined r (handlePublisherMedia r pub msg).1 (handlePublisherMedia r pub msg).2 := by
  unfold handlePublisherMedia
  cases htranscoder : r.transcoder with
  | true =>
      rw [if_pos rfl]
      refine ⟨rfl, fun hpushless => ⟨hpushless, fun e he => ?_⟩, fun h => ?_⟩
      · obtain ⟨call, -, rfl⟩ := List.mem_map.1 he
        exact id
      · rw [htranscoder] at h
        cases h
  | false =>
      rw [if_neg Bool.false_ne_true]
      split
      · exact .of_silent fun _ he => absurd he List.not_mem_nil
      · rename_i p hpusher
        refine ⟨htranscoder.symm, fun hpushless => ?_, fun _ e he => ?_⟩
        · rw [hpushless.pushers] at hpusher
          cases hpusher
        · rw [List.mem_singleton.1 he]
          exact id

/-- **A handler is confined.** -/
theorem Effect.confined (h : Effect r pub o msg r' pub' out) : Confined r r' out := by
  cases h with
  | ignored => exact .of_silent fun _ he => absurd he List.not_mem_nil
  | connect _ _ hout => exact .of_silent fun e he => (hout e he).not_busy
  | answered hout => exact .of_silent fun e he => (hout e he).not_busy
  | publish _ _ _ hout hstart =>
      have hstarted := confined_startRelaying hstart
      refine ⟨hstarted.transcoder, fun hpushless => ?_, fun htranscoder e he => ?_⟩
      · obtain ⟨hpushless', hquiet⟩ := hstarted.pushless hpushless
        refine ⟨hpushless', fun e he => ?_⟩
        rcases List.mem_append.1 he with hanswer | hrest
        · exact (hout e hanswer).not_busy.1
        · exact hquiet e hrest
      · rcases List.mem_append.1 he with hanswer | hrest
        · exact (hout e hanswer).not_busy.2
        · exact hstarted.untranscoded htranscoder e hrest
  | media _ => exact confined_handlePublisherMedia r pub msg

section Manager

variable {m m' : RelayManager} {i : RelayEvent} {log : List RelayOutput}

/-- What the manager keeps, and what it cannot do. -/
structure RelayManager.Confined (m m' : RelayManager) (log : List RelayOutput) : Prop where
  transcoder : m'.transcoder = m.transcoder
  pushless : Pushless m.toRelays → Pushless m'.toRelays ∧ ∀ e ∈ log, ¬ e.IsPush
  untranscoded : m.transcoder = false → ∀ e ∈ log, ¬ e.IsTranscoding

theorem Confined.lift (h : Confined m.toRelays r out) (id : ℕ) (pub : Option Publisher) :
    m.Confined (m.put r id pub) (out.map (.publisher id)) where
  transcoder := h.transcoder
  pushless hpushless := by
    obtain ⟨hpushless', hquiet⟩ := h.pushless hpushless
    refine ⟨hpushless', fun e he => ?_⟩
    obtain ⟨event, hevent, rfl⟩ := List.mem_map.1 he
    exact hquiet event hevent
  untranscoded htranscoder e he := by
    obtain ⟨event, hevent, rfl⟩ := List.mem_map.1 he
    exact h.untranscoded htranscoder event hevent

theorem Confined.cons {e : PublisherEvent} (h : Confined r r' out)
    (he : ¬ e.IsPush ∧ ¬ e.IsTranscoding) : Confined r r' (e :: out) where
  transcoder := h.transcoder
  pushless hpushless := by
    obtain ⟨hpushless', hquiet⟩ := h.pushless hpushless
    refine ⟨hpushless', fun e' he' => ?_⟩
    rcases List.mem_cons.1 he' with rfl | hrest
    · exact he.1
    · exact hquiet e' hrest
  untranscoded htranscoder e' he' := by
    rcases List.mem_cons.1 he' with rfl | hrest
    · exact he.2
    · exact h.untranscoded htranscoder e' hrest

theorem confined_onPusher (m : RelayManager) (streamId : StreamId) (event : PusherEvent) :
    m.Confined (m.onPusher streamId event).1 (m.onPusher streamId event).2 := by
  unfold RelayManager.onPusher
  split
  · exact ⟨rfl, fun h => ⟨h, fun _ he => absurd he List.not_mem_nil⟩,
      fun _ _ he => absurd he List.not_mem_nil⟩
  · rename_i p hpusher
    refine ⟨rfl, fun h => ?_, fun _ e he => ?_⟩
    · rw [h.pushers] at hpusher
      cases hpusher
    · rw [List.mem_singleton.1 he]
      exact id

/-- **A step of the manager is confined.** -/
theorem confined_step (h : MessageStep m i log m') : m.Confined m' log := by
  cases h with
  | accept growth => exact ⟨rfl, fun h => ⟨⟨h.cannot, h.pushers⟩, fun _ he => absurd he List.not_mem_nil⟩,
      fun _ _ he => absurd he List.not_mem_nil⟩
  | @transport id pub session events hpub hevents =>
      exact (Confined.of_silent fun e he => (hevents e he).not_busy).lift id _
  | @message id pub pub' o msg r events hpub hmessage =>
      have hfirst : ¬ (PublisherEvent.message msg).IsPush ∧ ¬ (PublisherEvent.message msg).IsTranscoding :=
        ⟨fun h => h, fun h => h⟩
      exact ((effect_of_ok hmessage).confined.cons hfirst).lift id _
  | @remove id pub hpub =>
      have hsilent : ∀ e ∈ [PublisherEvent.removed], ¬ e.IsPush ∧ ¬ e.IsTranscoding := by
        intro e he
        rw [List.mem_singleton.1 he]
        exact ⟨fun h => h, fun h => h⟩
      exact (Confined.of_silent hsilent).lift id none
  | @pusher streamId event hcallback => exact confined_onPusher m streamId event

/-- **A whole run of the manager is confined.** -/
theorem confined_of_run {steps : List (Moment RelayManager RelayInput RelayOutput)}
    (hrun : Run RelayManager.machine m steps m') : m.Confined m' (Machine.outputs steps) := by
  obtain ⟨fine, hfine, hout⟩ := does_of_run hrun
  rw [← hout]
  clear hrun hout
  induction hfine with
  | nil => exact ⟨rfl, fun h => ⟨h, fun _ he => absurd he List.not_mem_nil⟩,
      fun _ _ he => absurd he List.not_mem_nil⟩
  | @snoc fine m₁ m₂ i log _ hstep ih =>
      have hlast := confined_step hstep
      rw [Machine.outputs_snoc]
      refine ⟨hlast.transcoder.trans ih.transcoder, fun hpushless => ?_, fun htranscoder e he => ?_⟩
      · obtain ⟨hpushless₁, hquiet₁⟩ := ih.pushless hpushless
        obtain ⟨hpushless₂, hquiet₂⟩ := hlast.pushless hpushless₁
        refine ⟨hpushless₂, fun e he => ?_⟩
        rcases List.mem_append.1 he with hold | hnew
        · exact hquiet₁ e hold
        · exact hquiet₂ e hnew
      · rcases List.mem_append.1 he with hold | hnew
        · exact ih.untranscoded htranscoder e hold
        · exact hlast.untranscoded (ih.transcoder.trans htranscoder) e hnew

/-! ### Before `publish` -/

/-- Without an answer to `publish`, the handler of a message does not go beyond the connection. -/
theorem Effect.unpublished (h : Effect r pub o msg r' pub' out) (hready : pub.ready = false)
    (hnone : ∀ streamId created, .published streamId created ∉ out) :
    r' = r ∧ pub'.ready = false ∧ ∀ e ∈ out, ¬ e.IsPush ∧ ¬ e.IsTranscoding := by
  cases h with
  | ignored => exact ⟨rfl, hready, fun _ he => absurd he List.not_mem_nil⟩
  | connect _ _ hout => exact ⟨rfl, hready, fun e he => (hout e he).not_busy⟩
  | answered hout => exact ⟨rfl, hready, fun e he => (hout e he).not_busy⟩
  | publish _ _ _ _ hstart =>
      rcases startRelaying_cases hstart with ⟨calls, -, rfl, -⟩ | ⟨p, calls, -, -, -, -, rfl⟩
      · exact absurd (List.mem_append_right _ List.mem_cons_self) (hnone _ none)
      · exact absurd (List.mem_append_right _ List.mem_cons_self) (hnone _ (some calls))
  | media htrue =>
      rw [hready] at htrue
      cases htrue

/-- Nobody has published. -/
structure RelayManager.Unpublished (m : RelayManager) : Prop where
  pushers : ∀ streamId, m.pushers streamId = none
  publishers : ∀ id pub, m.publishers id = some pub → pub.ready = false

theorem RelayManager.Unpublished.put (h : m.Unpublished) (id : ℕ) {next : Option Publisher}
    (hnext : ∀ pub, next = some pub → pub.ready = false) :
    (m.put m.toRelays id next).Unpublished where
  pushers := h.pushers
  publishers id' pub hpub := by
    by_cases hid : id' = id
    · subst hid
      exact hnext pub (by simpa using hpub)
    · rw [RelayManager.put_publishers_of_ne hid] at hpub
      exact h.publishers id' pub hpub

theorem unpublished_onPusher (h : m.Unpublished) (streamId : StreamId) (event : PusherEvent) :
    m.onPusher streamId event = (m, []) := by
  unfold RelayManager.onPusher
  rw [h.pushers]

/-- **A step without an answer to `publish`.** -/
theorem unpublished_step (h : MessageStep m i log m') (hm : m.Unpublished)
    (hnone : ∀ e ∈ log, ¬ e.IsPublished) :
    m'.Unpublished ∧ ∀ e ∈ log, ¬ e.IsPush ∧ ¬ e.IsTranscoding := by
  have hlift {id : ℕ} {events : List PublisherEvent}
      (hevents : ∀ e ∈ events, ¬ e.IsPush ∧ ¬ e.IsTranscoding) :
      ∀ e ∈ events.map (RelayOutput.publisher id), ¬ e.IsPush ∧ ¬ e.IsTranscoding := by
    intro e he
    obtain ⟨event, hevent, rfl⟩ := List.mem_map.1 he
    exact hevents event hevent
  cases h with
  | accept growth =>
      refine ⟨⟨hm.pushers, fun id pub hpub => ?_⟩, fun _ he => absurd he List.not_mem_nil⟩
      by_cases hid : id = m.next
      · subst hid
        simp only [Function.update_self, Option.some.injEq] at hpub
        rw [← hpub]
        rfl
      · simp only [Function.update_of_ne hid] at hpub
        exact hm.publishers id pub hpub
  | @transport id pub session events hpub hevents =>
      refine ⟨hm.put id fun pub' hpub' => ?_, hlift fun e he => (hevents e he).not_busy⟩
      obtain rfl := Option.some.inj hpub'
      exact hm.publishers id pub hpub
  | @message id pub pub' o msg r events hpub hmessage =>
      obtain ⟨rfl, hready, hquiet⟩ := (effect_of_ok hmessage).unpublished (hm.publishers id pub hpub)
        fun streamId created hmem =>
          hnone _ (List.mem_map_of_mem (List.mem_cons_of_mem _ hmem)) ⟨id, streamId, created, rfl⟩
      refine ⟨hm.put id fun pub' hpub' => ?_, hlift fun e he => ?_⟩
      · obtain rfl := Option.some.inj hpub'
        exact hready
      · rcases List.mem_cons.1 he with rfl | hrest
        · exact ⟨fun h => h, fun h => h⟩
        · exact hquiet e hrest
  | @remove id pub hpub =>
      refine ⟨hm.put id (fun _ hnext => nomatch hnext), fun e he => ?_⟩
      rw [List.mem_singleton.1 he]
      exact ⟨fun h => h, fun h => h⟩
  | @pusher streamId event hcallback =>
      rw [unpublished_onPusher hm]
      exact ⟨hm, fun _ he => absurd he List.not_mem_nil⟩

/-- **A whole run without an answer to `publish`.** -/
theorem unpublished_of_run {steps : List (Moment RelayManager RelayInput RelayOutput)}
    (hrun : Run RelayManager.machine m steps m') (hm : m.Unpublished)
    (hnone : ∀ e ∈ Machine.outputs steps, ¬ e.IsPublished) :
    m'.Unpublished ∧ ∀ e ∈ Machine.outputs steps, ¬ e.IsPush ∧ ¬ e.IsTranscoding := by
  obtain ⟨fine, hfine, hout⟩ := does_of_run hrun
  rw [← hout] at hnone ⊢
  clear hrun hout
  induction hfine with
  | nil => exact ⟨hm, fun _ he => absurd he List.not_mem_nil⟩
  | @snoc fine m₁ m₂ i log _ hstep ih =>
      rw [Machine.outputs_snoc] at hnone ⊢
      obtain ⟨hm₁, hquiet₁⟩ := ih fun e he => hnone e (List.mem_append_left _ he)
      obtain ⟨hm₂, hquiet₂⟩ := unpublished_step hstep hm₁ fun e he =>
        hnone e (List.mem_append_right _ he)
      refine ⟨hm₂, fun e he => ?_⟩
      rcases List.mem_append.1 he with hold | hnew
      · exact hquiet₁ e hold
      · exact hquiet₂ e hnew

end Manager

end Relay
