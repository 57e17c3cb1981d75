/-
**A server's end of a connection.**

`ServerHandshake.lean` says how the callback of a publisher takes the handshake out of what it reads, and
`PublisherReplies.lean` what it hands to the socket.  This module says what becomes of the rest: as long
as the first read brings no more than C0 and C1, the messages that are handled are those that a session
behind its handshake makes of the bytes behind C2, in the pieces in which they have been read.

A connection that has ended may have read bytes that it has not handled; what it has handled comes from
the bytes before them.

Main definitions:

* `Relay.listener` — a fresh session behind its handshake;
* `Relay.Brief` — a first read that brings no more than C0 and C1;
* `Relay.Served` — how far a connection has come, and what it has handled.

Main results:

* `Rtmp.Session.processInput_of_parse` — what a read brings out depends on the parser alone;
* `Relay.listener_delivers` — **of the beginning of a stream, the listener makes the first messages**;
* `Relay.Publisher.readHandshake_delivers`, `Relay.Publisher.processInput_delivers` — the two reads
  after the answer;
* `Relay.Served.step` — **one step of a connection**.
-/

import RtmpTranscoder.PublisherReplies
import RtmpTranscoder.SessionDelivery

set_option relaxedAutoImplicit false
set_option autoImplicit false

namespace Rtmp

open Incremental

namespace Session

/-- **What a read brings out depends on the parser alone.** -/
theorem processInput_of_parse {s t : Session} (hs : s.handshake.isDone = true)
    (ht : t.handshake.isDone = true) (hparser : s.parser = t.parser) (data : List UInt8) :
    (s.processInput data).2.1 = (t.processInput data).2.1 ∧
      (s.processInput data).1.parser = (t.processInput data).1.parser := by
  rw [processInput_eq hs, processInput_eq ht, foldl_handle, foldl_handle, hparser]
  exact ⟨rfl, rfl⟩

theorem processAll_snoc (s : Session) (reads : List (List UInt8)) (data : List UInt8) :
    s.processAll (reads ++ [data]) =
      (((s.processAll reads).1.processInput data).1,
        (s.processAll reads).2 ++ ((s.processAll reads).1.processInput data).2.1) := by
  rw [processAll_append, processAll_cons, processAll_nil, List.append_nil]

end Session

/-- Of the beginning of bytes that are decoded as messages, however it is cut, a fresh parser makes the
first of these messages. -/
theorem Decodes.feedAll_initial {bytes : List UInt8} {sent : List Message} {n : UInt32}
    (h : Decodes bytes sent n) {reads : List (List UInt8)} (hreads : reads.flatten <+: bytes) :
    (chunkDecoder.feedAll (fresh 128) reads).2.map Chunk.message <+: sent := by
  obtain ⟨tail, htail⟩ := hreads
  have hall : (reads ++ [tail]).flatten = bytes := by
    rw [List.flatten_append, List.flatten_singleton, htail]
  have hmessages := Decodes.feedAll (hall ▸ h)
  rw [chunkDecoder.feedAll_append, List.map_append] at hmessages
  exact ⟨_, hmessages⟩

end Rtmp

namespace Relay

open Publisher (protocolMessages)
open Rtmp (Failure Message Session GrowthPolicy Handshake Decodes)
open Rtmp.Handshake (ClientHello clientChallenge)

/-- A fresh session behind its handshake. -/
def listener : Session := Session.established .exact { state := .done }

/-- **Of the beginning of a stream, the listener makes the first messages**, and of all of it, all of
them, if none of them announces a chunk size. -/
theorem listener_delivers {bytes : List UInt8} {sent : List Message} {n : UInt32}
    (h : Decodes bytes sent n) (hannounced : ∀ msg ∈ sent, Rtmp.announced msg = none)
    {reads : List (List UInt8)} (hreads : reads.flatten <+: bytes) :
    (listener.processAll reads).2 <+: sent ∧
      (reads.flatten = bytes → (listener.processAll reads).2 = sent) := by
  have hinitial := h.feedAll_initial hreads
  have hinput := @Session.processAll_of_inRange listener rfl reads fun msg hmsg size hsize => by
    rw [hannounced msg (hinitial.subset hmsg)] at hsize
    cases hsize
  refine ⟨?_, fun hall => ?_⟩
  · rw [hinput]
    exact hinitial
  · rw [hinput]
    exact Decodes.feedAll (hall ▸ h)

/-! ### The handlers and the parser -/

variable {r r' : Relays} {pub pub' : Publisher} {out : List PublisherEvent}

theorem Effect.parser {o : CallOutcome} {msg : Message} (h : Effect r pub o msg r' pub' out) :
    pub'.session.parser = pub.session.parser := by
  cases h with
  | ignored => rfl
  | connect _ _ _ => rfl
  | answered _ => rfl
  | publish _ _ _ _ _ => rfl
  | media => rfl

theorem parser_handleMessages (h : pub.Sound) {calls : ℕ → CallOutcome} {messages : List Message}
    (hcall : handleMessages r pub calls messages = .ok (r', pub', out)) :
    pub'.session.parser = pub.session.parser := by
  induction messages generalizing r r' pub pub' calls out with
  | nil =>
      obtain ⟨-, rfl, -⟩ := ok_inj hcall
      rfl
  | cons msg messages ih =>
      obtain ⟨r₁, pub₁, out₁, out₂, hfirst, hrest, -⟩ := handleMessages_cons hcall
      have heffect := effect_of_ok hfirst
      have h₁ : pub₁.Sound := by
        rw [Publisher.Sound, heffect.keeps.1.outChunkSize]
        exact h
      rw [ih h₁ hrest, heffect.parser]

namespace Publisher

/-- A publisher behind its handshake whose parser has been given these reads. -/
structure Listens (pub : Publisher) (reads : List (List UInt8)) : Prop where
  done : pub.session.handshake.isDone = true
  clean : pub.Clean
  parser : pub.session.parser = (listener.processAll reads).1.parser

theorem Clean.sound (h : pub.Clean) : pub.Sound := by
  rw [Sound, h.outChunkSize]
  decide

/-- **A read hands over what the listener makes of it**, one message after the other. -/
theorem Listens.processInput_eq {reads : List (List UInt8)} (h : pub.Listens reads)
    (data : List UInt8) (calls : ℕ → CallOutcome) :
    ∃ session : Session, Listens { pub with session := session } (reads ++ [data]) ∧
      pub.processInput r data calls =
        (handleMessages r { pub with session := session } calls
          ((listener.processAll reads).1.processInput data).2.1).map
          fun result => (result.1, some result.2.1, .processInput data :: result.2.2) := by
  have hlistener : (listener.processAll reads).1.handshake.isDone = true := by
    rw [Session.handshake_processAll (s := listener) rfl]
    rfl
  obtain ⟨hsame, hnext⟩ := Session.processInput_of_parse h.done hlistener h.parser data
  obtain ⟨bytes, -, hresult⟩ := Session.buffer_processInput h.done data
  obtain ⟨hbuffer, hsize⟩ := pub.session.processInput_outgoing data
  refine ⟨(pub.session.processInput data).1, ⟨?_, ?_, ?_⟩, ?_⟩
  · exact (congrArg Handshake.isDone (Session.handshake_processInput h.done data)).trans h.done
  · exact ⟨hbuffer ▸ h.clean.plain, hbuffer ▸ h.clean.readable, hsize.trans h.clean.outChunkSize⟩
  · rw [Session.processAll_snoc]
    exact hnext
  · rw [← hsame]
    simp only [processInput, hresult]
    cases handleMessages r { pub with session := (pub.session.processInput data).1 } calls
      (pub.session.processInput data).2.1 <;> rfl

/-- **The messages of a read are those that the listener makes of it.** -/
theorem processInput_delivers {reads : List (List UInt8)} (h : pub.Listens reads) {data : List UInt8}
    {calls : ℕ → CallOutcome} {p : Option Publisher}
    (hcall : pub.processInput r data calls = .ok (r', p, out)) :
    ∃ pub', p = some pub' ∧ pub'.Listens (reads ++ [data]) ∧ (∀ e ∈ out, ¬ e.IsHandshake) ∧
      (listener.processAll reads).2 ++ handled out = (listener.processAll (reads ++ [data])).2 := by
  obtain ⟨pub', rfl, hdone, hclean, hquiet, -⟩ := processInput_replies h.done h.clean hcall
  obtain ⟨session, hlistens, hprocess⟩ := h.processInput_eq (r := r) data calls
  obtain ⟨⟨r₁, pub₁, out₁⟩, hmessages, hreturn⟩ := map_ok (hprocess.symm.trans hcall)
  obtain ⟨-, hpub, rfl⟩ := ok_inj (congrArg Except.ok hreturn)
  obtain rfl := Option.some.inj hpub
  have hparser := parser_handleMessages hlistens.clean.sound hmessages
  obtain ⟨-, hhandled, -⟩ := handleMessages_replies hlistens.clean hmessages
  refine ⟨pub₁, rfl, ⟨hdone, hclean, hparser.trans hlistens.parser⟩, hquiet, ?_⟩
  rw [Session.processAll_snoc]
  change _ ++ handled out₁ = _
  rw [hhandled]

/-- A read that brings C2, up to what it has behind it. -/
theorem readHandshake_challenge {growth : GrowthPolicy} {hs : Handshake} {data : List UInt8}
    {o : PublisherOutcome} {n : ℕ} (hfresh : pub.session = Session.established growth hs)
    (hsent : hs.state = .s0s1s2Sent) (hlen : 1536 ≤ data.length) (hwritten : o.protocolWritten = .ok n) :
    ∃ session : Session, Listens { pub with session := session } [] ∧
      pub.readHandshake r data o =
        if 1536 < data.length then
          (processInput r { pub with session := session } (data.drop 1536) o.calls).map
            fun result => (result.1, result.2.1, .chunks protocolMessages :: result.2.2)
        else .ok (r, some { pub with session := session }, [.chunks protocolMessages]) := by
  rcases Handshake.processClientHandshake_sent hsent data with ⟨hshort, -⟩ | ⟨-, htake⟩
  · exact absurd hlen (Nat.not_le.2 hshort)
  · obtain ⟨session, hhandshake, hparser, hsize, hplain, hreadable, hread⟩ :=
      readHandshake_done_eq (r := r) (o := o) hfresh htake rfl
    rw [hwritten] at hread
    refine ⟨session, ⟨?_, ⟨hplain, hreadable, hsize⟩, hparser⟩, hread⟩
    change session.handshake.isDone = true
    rw [hhandshake]
    rfl

/-- **The read that brings C2**: what is behind it is the first read of the session. -/
theorem readHandshake_delivers {growth : GrowthPolicy} {hs : Handshake} {data : List UInt8}
    {o : PublisherOutcome} {p : Option Publisher}
    (hfresh : pub.session = Session.established growth hs) (hsent : hs.state = .s0s1s2Sent)
    (hcall : pub.readHandshake r data o = .ok (r', p, out)) :
    (p = none ∧ out = [.removed]) ∨
      (1536 ≤ data.length ∧ p = none ∧ out = [.chunks protocolMessages, .removed]) ∨
      (1536 ≤ data.length ∧ ∃ pub' reads, p = some pub' ∧ pub'.Listens reads ∧
        reads.flatten = data.drop 1536 ∧ (∀ e ∈ out, ¬ e.IsHandshake) ∧
        handled out = (listener.processAll reads).2) := by
  rcases Handshake.processClientHandshake_sent hsent data with ⟨-, text, htake⟩ | ⟨hlen, htake⟩
  · have htake' : (Session.established growth hs).handshake.processClientHandshake data
        = (hs, .error (.err text)) := htake
    simp only [readHandshake, hfresh, htake'] at hcall
    obtain ⟨-, rfl, rfl⟩ := ok_inj hcall
    exact .inl ⟨rfl, rfl⟩
  · refine .inr ?_
    cases hwritten : o.protocolWritten with
    | error f =>
        obtain ⟨session, -, -, -, -, -, hread⟩ :=
          readHandshake_done_eq (r := r) (o := o) hfresh htake rfl
        rw [hread, hwritten] at hcall
        obtain ⟨-, rfl, rfl⟩ := ok_inj hcall
        exact .inl ⟨hlen, rfl, rfl⟩
    | ok n =>
        refine .inr ⟨hlen, ?_⟩
        obtain ⟨session, hlistens, hread⟩ :=
          readHandshake_challenge (r := r) hfresh hsent hlen hwritten
        rw [hread] at hcall
        by_cases hmore : 1536 < data.length
        · rw [if_pos hmore] at hcall
          obtain ⟨⟨r₁, p₁, out₁⟩, hinput, hreturn⟩ := map_ok hcall
          obtain ⟨-, rfl, rfl⟩ := ok_inj (congrArg Except.ok hreturn)
          obtain ⟨pub', rfl, hlistens', hquiet, hhandled⟩ := processInput_delivers hlistens hinput
          refine ⟨pub', [data.drop 1536], rfl, hlistens', List.flatten_singleton, ?_, hhandled⟩
          intro e he
          rcases List.mem_cons.1 he with rfl | he
          · exact id
          · exact hquiet e he
        · rw [if_neg hmore] at hcall
          obtain ⟨-, rfl, rfl⟩ := ok_inj hcall
          refine ⟨_, [], rfl, hlistens, ?_, ?_, rfl⟩
          · exact (List.drop_eq_nil_of_le (not_lt.1 hmore)).symm
          · intro e he
            rw [List.mem_singleton.1 he]
            exact id

end Publisher

/-! ### Connections -/

section Step

variable {growth : GrowthPolicy} {p p' : Option Publisher} {i : PublisherInput}
  {trace : List (Machine.Moment (Option Publisher) PublisherInput PublisherEvent)}

/-- A read of a connection that has received nothing brings no more than C0 and C1. -/
def Brief (m : Machine.Moment (Option Publisher) PublisherInput PublisherEvent) : Prop :=
  ∀ pub, m.state = some pub → pub.session.handshake.state = .uninitialized →
    m.input.data.length ≤ 1537

/-- Nothing has been handed to the socket but the answer to C1, if that has been. -/
def AnswersOnly (trace : List (Machine.Moment (Option Publisher) PublisherInput PublisherEvent)) :
    Prop :=
  offered (Machine.outputs trace) = [] ∨
    ∃ s1 written rest, s1.length = 1536 ∧ ClientHello (received trace) ∧
      Machine.outputs trace = .handshake (handshakeResponse s1 (received trace)) written :: rest ∧
      offered rest = []

/-- How far a connection has come, and what it has handled of what it has received. -/
inductive Served (growth : GrowthPolicy)
    (trace : List (Machine.Moment (Option Publisher) PublisherInput PublisherEvent)) :
    Option Publisher → Prop
  | start : received trace = [] → Machine.outputs trace = [] →
      Served growth trace (some (Publisher.new growth))
  | answered {pub : Publisher} {hs : Handshake} {s1 : List UInt8} {n : ℕ} :
      pub.session = Session.established growth hs → hs.state = .s0s1s2Sent → s1.length = 1536 →
      ClientHello (received trace) → (received trace).length = 1537 →
      Machine.outputs trace = [.handshake (handshakeResponse s1 (received trace)) (.ok n)] →
      Served growth trace (some pub)
  | done {pub : Publisher} {reads : List (List UInt8)} :
      pub.Listens reads → 3073 ≤ (received trace).length →
      (received trace).drop 3073 = reads.flatten →
      handled (Machine.outputs trace) = (listener.processAll reads).2 → Served growth trace (some pub)
  | ended {reads : List (List UInt8)} :
      reads.flatten <+: (received trace).drop 3073 →
      handled (Machine.outputs trace) = (listener.processAll reads).2 →
      ((received trace).length < 3073 → AnswersOnly trace) → Served growth trace none

theorem Served.of_unhandled (h : handled (Machine.outputs trace) = [])
    (hanswers : (received trace).length < 3073 → AnswersOnly trace) : Served growth trace none :=
  @Served.ended growth trace [] List.nil_prefix h hanswers

theorem Served.step_start (hreceived : received trace = []) (hout : Machine.outputs trace = [])
    (hbrief : Brief ⟨some (Publisher.new growth), i, out⟩)
    (hstep : Publisher.perform (some (Publisher.new growth)) i = .ok (p', out)) :
    Served growth (trace ++ [⟨some (Publisher.new growth), i, out⟩]) p' := by
  have hreceived' : received (trace ++ [⟨some (Publisher.new growth), i, out⟩]) = i.data := by
    rw [received_snoc, hreceived]
    rfl
  have hout' : Machine.outputs (trace ++ [⟨some (Publisher.new growth), i, out⟩]) = out := by
    rw [Machine.outputs_snoc, hout]
    rfl
  generalize trace ++ [⟨some (Publisher.new growth), i, out⟩] = trace' at hreceived' hout' ⊢
  by_cases hdata : i.data = []
  · rcases Publisher.perform_of_data_nil hdata with hperform | hperform
    · obtain ⟨rfl, rfl⟩ := Prod.mk.inj (Except.ok.inj (hperform.symm.trans hstep))
      exact .start (hreceived'.trans hdata) hout'
    · obtain ⟨rfl, rfl⟩ := Prod.mk.inj (Except.ok.inj (hperform.symm.trans hstep))
      exact .of_unhandled (by rw [hout']; rfl) fun _ => .inl (by rw [hout']; rfl)
  · have hnew : (Publisher.new growth).session = Session.established growth {} := rfl
    rw [Publisher.perform_of_not_done hnew (by decide) hdata] at hstep
    have hshort : i.data.length ≤ 1537 := hbrief _ rfl rfl
    rcases Publisher.readHandshake_uninitialized (r := i.relays) (o := i.outcome) hnew rfl with
      ⟨-, hcall⟩ | ⟨hhello, -, s1, hs1, hanswer⟩ | ⟨-, hlong, -⟩
    · rw [hcall] at hstep
      obtain ⟨rfl, rfl⟩ := Prod.mk.inj (Except.ok.inj hstep)
      exact .of_unhandled (by rw [hout']; rfl) fun _ => .inl (by rw [hout']; rfl)
    · rcases hanswer with ⟨f, -, hcall⟩ | ⟨n, hs', -, hsent, hcall⟩
      · rw [hcall] at hstep
        obtain ⟨rfl, rfl⟩ := Prod.mk.inj (Except.ok.inj hstep)
        rw [← hreceived'] at hhello hout'
        exact .of_unhandled (by rw [hout']; rfl) fun _ =>
          .inr ⟨s1, .error f, _, hs1, hhello, hout', rfl⟩
      · rw [hcall] at hstep
        obtain ⟨rfl, rfl⟩ := Prod.mk.inj (Except.ok.inj hstep)
        rw [← hreceived'] at hhello hshort hout'
        exact .answered rfl hsent hs1 hhello (Nat.le_antisymm hshort hhello.1) hout'
    · omega

theorem Served.step_answered {hs : Handshake} {s1 : List UInt8} {n : ℕ}
    (hfresh : pub.session = Session.established growth hs) (hsent : hs.state = .s0s1s2Sent)
    (hs1 : s1.length = 1536) (hhello : ClientHello (received trace))
    (hlen : (received trace).length = 1537)
    (hout : Machine.outputs trace = [.handshake (handshakeResponse s1 (received trace)) (.ok n)])
    (hstep : Publisher.perform (some pub) i = .ok (p', out)) :
    Served growth (trace ++ [⟨some pub, i, out⟩]) p' := by
  have hreceived : received (trace ++ [⟨some pub, i, out⟩]) = received trace ++ i.data := by
    rw [received_snoc]
    rfl
  have hhandled : handled (Machine.outputs (trace ++ [⟨some pub, i, out⟩])) = handled out := by
    rw [Machine.outputs_snoc, handled_append, hout]
    rfl
  -- the connection ends before C2 has come
  have hremoved : Served growth (trace ++ [⟨some pub, i, [.removed]⟩]) none := by
    have hreceived' : received (trace ++ [⟨some pub, i, [.removed]⟩]) = received trace ++ i.data := by
      rw [received_snoc]
      rfl
    have hsame : handshakeResponse s1 (received trace ++ i.data) =
        handshakeResponse s1 (received trace) := by
      rw [handshakeResponse, handshakeResponse, clientChallenge_append hhello]
    refine .of_unhandled ?_ fun _ => .inr ⟨s1, .ok n, [.removed], hs1, ?_, ?_, rfl⟩
    · rw [Machine.outputs_snoc, handled_append, hout]
      rfl
    · rw [hreceived']
      exact clientHello_append hhello _
    · rw [Machine.outputs_snoc, hout, hreceived', hsame]
      rfl
  by_cases hdata : i.data = []
  · rcases Publisher.perform_of_data_nil hdata with hperform | hperform
    · obtain ⟨rfl, rfl⟩ := Prod.mk.inj (Except.ok.inj (hperform.symm.trans hstep))
      rw [hdata, List.append_nil] at hreceived
      rw [← hreceived] at hhello hlen
      refine .answered (n := n) hfresh hsent hs1 hhello hlen ?_
      rw [Machine.outputs_snoc, hreceived, List.append_nil]
      exact hout
    · obtain ⟨rfl, rfl⟩ := Prod.mk.inj (Except.ok.inj (hperform.symm.trans hstep))
      exact hremoved
  · rw [Publisher.perform_of_not_done hfresh (by simp [hsent]) hdata] at hstep
    have hlength : (received (trace ++ [⟨some pub, i, out⟩])).length = 1537 + i.data.length := by
      rw [hreceived, List.length_append, hlen]
    obtain ⟨r', hcall⟩ := map_snd_ok hstep
    rcases Publisher.readHandshake_delivers hfresh hsent hcall with
      ⟨rfl, rfl⟩ | ⟨hlong, rfl, rfl⟩ | ⟨hlong, pub', reads, rfl, hlistens, hrest, -, hmade⟩
    · exact hremoved
    · exact .of_unhandled hhandled fun hshort => by omega
    · refine .done hlistens ?_ ?_ (hhandled.trans hmade)
      · omega
      · rw [hreceived, hrest, List.drop_append, hlen, List.drop_eq_nil_of_le (by omega),
          List.nil_append]

theorem Served.step_done {reads : List (List UInt8)} (hlistens : pub.Listens reads)
    (hlong : 3073 ≤ (received trace).length) (hrest : (received trace).drop 3073 = reads.flatten)
    (hmade : handled (Machine.outputs trace) = (listener.processAll reads).2)
    (hstep : Publisher.perform (some pub) i = .ok (p', out)) :
    Served growth (trace ++ [⟨some pub, i, out⟩]) p' := by
  have hreceived : received (trace ++ [⟨some pub, i, out⟩]) = received trace ++ i.data := by
    rw [received_snoc]
    rfl
  have hlong' : 3073 ≤ (received (trace ++ [⟨some pub, i, out⟩])).length := by
    rw [hreceived, List.length_append]
    omega
  have hdrop : (received (trace ++ [⟨some pub, i, out⟩])).drop 3073 = reads.flatten ++ i.data := by
    rw [hreceived, List.drop_append_of_le_length hlong, hrest]
  have hhandled : handled (Machine.outputs (trace ++ [⟨some pub, i, out⟩])) =
      (listener.processAll reads).2 ++ handled out := by
    rw [Machine.outputs_snoc, handled_append, hmade]
  by_cases hdata : i.data = []
  · rw [hdata, List.append_nil] at hdrop
    rcases Publisher.perform_of_data_nil hdata with hperform | hperform
    · obtain ⟨rfl, rfl⟩ := Prod.mk.inj (Except.ok.inj (hperform.symm.trans hstep))
      exact .done hlistens hlong' hdrop (hhandled.trans (List.append_nil _))
    · obtain ⟨rfl, rfl⟩ := Prod.mk.inj (Except.ok.inj (hperform.symm.trans hstep))
      exact .ended (hdrop ▸ List.prefix_rfl) (hhandled.trans (List.append_nil _)) fun hshort =>
        absurd hlong' (Nat.not_le.2 hshort)
  · rw [Publisher.perform_of_data hdata, if_neg (by simp [hlistens.done])] at hstep
    obtain ⟨r', hcall⟩ := map_snd_ok hstep
    obtain ⟨pub', rfl, hlistens', -, hmore⟩ := Publisher.processInput_delivers hlistens hcall
    refine .done hlistens' hlong' ?_ (hhandled.trans hmore)
    rw [hdrop, List.flatten_append, List.flatten_singleton]

/-- **One step of a connection.** -/
theorem Served.step (h : Served growth trace p) (hbrief : Brief ⟨p, i, out⟩)
    (hstep : Publisher.perform p i = .ok (p', out)) :
    Served growth (trace ++ [⟨p, i, out⟩]) p' := by
  cases h with
  | start hreceived hout => exact step_start hreceived hout hbrief hstep
  | answered hfresh hsent hs1 hhello hlen hout =>
      exact step_answered hfresh hsent hs1 hhello hlen hout hstep
  | done hlistens hlong hrest hmade => exact step_done hlistens hlong hrest hmade hstep
  | @ended reads hrest hmade hanswers =>
      obtain ⟨rfl, rfl⟩ := Prod.mk.inj (Except.ok.inj hstep)
      have hreceived : received (trace ++ [⟨none, i, []⟩]) = received trace := by
        rw [received_snoc]
        exact List.append_nil _
      have hout : Machine.outputs (trace ++ [⟨none, i, []⟩]) = Machine.outputs trace := by
        rw [Machine.outputs_snoc]
        exact List.append_nil _
      refine @Served.ended growth _ reads ?_ ?_ ?_
      · rw [hreceived]
        exact hrest
      · rw [hout]
        exact hmade
      · rw [AnswersOnly, hreceived, hout]
        exact hanswers

/-- **Before C2 has come, nothing is handed over but the answer to C1.** -/
theorem Served.answersOnly (h : Served growth trace p) (hshort : (received trace).length < 3073) :
    AnswersOnly trace := by
  cases h with
  | start hreceived hout =>
      refine .inl ?_
      rw [hout]
      rfl
  | @answered pub hs s1 n hfresh hsent hs1 hhello hlen hout =>
      exact .inr ⟨s1, .ok n, [], hs1, hhello, hout, rfl⟩
  | done _ hlong _ _ => exact absurd hlong (Nat.not_le.2 hshort)
  | ended _ _ hanswers => exact hanswers hshort

/-- **What has been handled is what the listener makes of the first of the bytes behind C2**, and of all
of them, as long as the connection stands and they are there. -/
theorem Served.handled_eq (h : Served growth trace p) :
    ∃ reads : List (List UInt8), reads.flatten <+: (received trace).drop 3073 ∧
      handled (Machine.outputs trace) = (listener.processAll reads).2 ∧
      (p.isSome = true → reads.flatten = (received trace).drop 3073) := by
  cases h with
  | start hreceived hout =>
      refine ⟨[], List.nil_prefix, by rw [hout]; rfl, fun _ => ?_⟩
      rw [hreceived]
      rfl
  | answered _ _ _ _ hlen hout =>
      refine ⟨[], List.nil_prefix, by rw [hout]; rfl, fun _ => ?_⟩
      exact (List.drop_eq_nil_of_le (by omega)).symm
  | @done pub reads _ _ hrest hmade =>
      exact ⟨reads, hrest ▸ List.prefix_rfl, hmade, fun _ => hrest.symm⟩
  | @ended reads hrest hmade _ => exact ⟨reads, hrest, hmade, fun h => by cases h⟩

end Step

/-! ### A connection that is served -/

namespace Publisher

/-- What is read is for the handshake, as long as that is not done, and for the session then. -/
theorem onEvents_readable {data : List UInt8} {o : PublisherOutcome} (hread : o.read = .ok data)
    (hdata : data ≠ []) :
    pub.onEvents r readable o =
      if !pub.session.handshake.isDone then pub.readHandshake r data o
      else pub.processInput r data o.calls := by
  obtain ⟨byte, rest, rfl⟩ := List.exists_cons_of_ne_nil hdata
  simp only [onEvents, hread]
  rfl

/-- C0 and C1 in one read, and C2 in the next one: from then on the publisher listens. -/
theorem exists_listening (r : Relays) :
    ∃ (pub : Publisher) (response : List UInt8) (session : Session),
      (new .exact).onEvents r readable (answerAccepted 3073) =
        .ok (r, some pub, [.handshake response (.ok 3073)]) ∧
      pub.onEvents r readable challengeAnswered =
        .ok (r, some { new .exact with session := session }, [.chunks protocolMessages]) ∧
      Listens { new .exact with session := session } [] := by
  have hlen := length_hello 0
  have hnew : (new .exact).session = Session.established .exact {} := rfl
  have hhello := @onEvents_readable r (new .exact) (hello 0) (answerAccepted 3073) rfl
    (List.cons_ne_nil _ _)
  rw [if_pos (by decide)] at hhello
  rcases @readHandshake_uninitialized r _ _ (hello 0) (answerAccepted 3073) {} hnew rfl with
    ⟨hnot, -⟩ | ⟨-, -, s1, -, ⟨f, hwritten, -⟩ | ⟨n, hs, hwritten, hsent, hcall⟩⟩ | ⟨-, hlong, -⟩
  · exact absurd ⟨hlen.ge, rfl⟩ hnot
  · cases hwritten
  · obtain rfl : 3073 = n := Except.ok.inj hwritten
    have hc2 : (List.replicate 1536 0 : List UInt8).length = 1536 := List.length_replicate
    obtain ⟨session, hlistens, hread⟩ := @readHandshake_challenge r
      { new .exact with session := Session.established .exact hs } _ _ _ challengeAnswered _ rfl hsent
      hc2.ge rfl
    refine ⟨_, _, session, hhello.trans hcall, ?_, hlistens⟩
    rw [onEvents_readable (show challengeAnswered.read = .ok (List.replicate 1536 0) from rfl)
      (fun hnil => by simp [hnil] at hc2), if_pos (by simp [Session.established, Handshake.isDone, hsent]),
      hread, if_neg (by rw [hc2]; exact lt_irrefl _)]
  · omega

end Publisher

end Relay
