/-
**A client and a server of this program, connected.**

A pusher of one instance of this program may well push to a publisher's port of another one.  The two
sockets are then the ends of one connection, and what was an assumption about the peer on either side is
what the other side does.  The bytes on their way are in two pipes; a socket accepts as much of what it
is given as it likes, bytes are read in pieces of any length, and the two sides take turns in any order.

Of the client's side this takes three things for granted.  It connects once; what it writes of the
handshake is accepted whole or not at all, and what it sends before the handshake is over waits for it
(`EventClient.WritesWhole`); and it is asked to send what can be sent (`ClientAction.Sendable`).  Where C0
and C1 are accepted in parts they come twice, and the server handles messages that nobody has sent.

The server gets no byte behind C1 before it has answered, as the client has none: so C2 never comes
together with C0 and C1, and the server that would not answer then is not met.  And the client gets to
the end of its handshake only if it has got the answer whole, as the server says nothing else before it
has C2: so S1 and C1 come back as they have been sent, although neither side looks at them.  Of the
messages that the client sends, the server handles the first ones, in order, each of them once.

Main definitions:

* `Link.clientEnd`, `Link.serverEnd` — the two parties;
* `Link.Linked` — a run of the two, from the connection on;
* `Link.Agreed` — the client has got the answer to the very C1 that it has sent.

Main results:

* `Link.Joined.step`, `Link.Linked.joined` — what holds of both sides together;
* `Link.delivered_in_order` — **the messages that the server handles are the first of those that the
  client sends**, and all of them, when nothing is on its way;
* `Link.handshake_agreed` — **both sides have the same C1 and S1**, whatever is accepted, and the server
  answers C1 before it gets C2.
-/

import RtmpTranscoder.ClientStream
import RtmpTranscoder.ServerStream

set_option relaxedAutoImplicit false
set_option autoImplicit false

namespace Link

open Duplex (Party Step leftTrace rightTrace givenLeft givenRight Gave)
open Machine (Moment Run)
open Rtmp (Failure EventClient ClientAction LoopOutput ConnectOutcome GrowthPolicy Message acceptedOf
  serverBytes sentMessages)
open Rtmp.Handshake (ClientHello clientChallenge)
open Relay (Publisher PublisherInput PublisherEvent publisherMachine received offered handled
  handshakeResponse Served AnswersOnly Answerable Brief)

/-! ### The parties -/

/-- The client's end: it takes what it reads, and gives what is accepted of what it writes. -/
def clientEnd (policy : GrowthPolicy) : Party EventClient ClientAction LoopOutput UInt8 where
  step := EventClient.machine policy
  takes := EventClient.readOf
  gives m given := given = m.state.wire m.input

/-- What a publisher's socket accepts of what is handed to it.  The callback looks at the number only
for the answer to C1, and at none of the others. -/
inductive Accepts : List PublisherEvent → List UInt8 → Prop
  | nil : Accepts [] []
  | handshake {data : List UInt8} {written : Except Failure ℕ} {out : List PublisherEvent}
      {given : List UInt8} : Accepts out given →
      Accepts (.handshake data written :: out) (acceptedOf written data ++ given)
  | chunks {data : List UInt8} {out : List PublisherEvent} {given : List UInt8} (n : ℕ) :
      Accepts out given → Accepts (.chunks data :: out) (data.take n ++ given)
  | other {e : PublisherEvent} {out : List PublisherEvent} {given : List UInt8} :
      offered [e] = [] → Accepts out given → Accepts (e :: out) given

/-- The server's end: it takes what it reads, and gives what its socket accepts. -/
def serverEnd : Party (Option Publisher) PublisherInput PublisherEvent UInt8 where
  step := publisherMachine
  takes pub i := if pub.isSome then i.data else []
  gives m given := Accepts m.outputs given

abbrev LinkState := Duplex.State EventClient (Option Publisher) UInt8

abbrev LinkMoment :=
  Moment LinkState (Duplex.Input ClientAction PublisherInput UInt8) (LoopOutput ⊕ PublisherEvent)

/-- The client has called `connect`, and the server has accepted the connection. -/
def start (policy : GrowthPolicy) (o : ConnectOutcome) (growth : GrowthPolicy) : LinkState where
  left := (EventClient.new policy).connect policy o
  right := some (Publisher.new growth)
  up := []
  down := []

def hello (policy : GrowthPolicy) (o : ConnectOutcome) : List UInt8 :=
  ((EventClient.new policy).connect policy o).handshakeData

/-- A step of the client that does not connect again, does not cut the handshake, and sends what can be
sent: the assumptions of everything below. -/
structure Proper (m : Moment EventClient ClientAction LoopOutput) : Prop where
  once : ∀ o, m.input ≠ .connect o
  whole : m.state.WritesWhole m.input
  sendable : m.input.Sendable

/-- A run of the two, from the connection on, in which the client keeps to `Proper`. -/
structure Linked (policy : GrowthPolicy) (o : ConnectOutcome) (growth : GrowthPolicy)
    (trace : List LinkMoment) (s : LinkState) : Prop where
  run : Run (Step (clientEnd policy) serverEnd) (start policy o growth) trace s
  proper : ∀ m ∈ leftTrace trace, Proper m

/-! ### What the server gives -/

section Accepted

variable {out out' : List PublisherEvent} {given given' : List UInt8}

theorem Accepts.append (h : Accepts out given) (h' : Accepts out' given') :
    Accepts (out ++ out') (given ++ given') := by
  induction h with
  | nil => exact h'
  | handshake _ ih =>
      rw [List.append_assoc]
      exact .handshake ih
  | chunks n _ ih =>
      rw [List.append_assoc]
      exact .chunks n ih
  | other he _ ih => exact .other he ih

theorem Accepts.eq_nil (h : Accepts out given) (hnone : offered out = []) : given = [] := by
  induction h with
  | nil => rfl
  | handshake _ _ => cases hnone
  | chunks _ _ _ => cases hnone
  | @other e out given he _ ih =>
      have hsplit : offered (e :: out) = offered [e] ++ offered out :=
        @Relay.offered_append [e] out
      rw [hsplit, he, List.nil_append] at hnone
      exact ih hnone

/-- Where the answer to C1 is all that is handed over, what is accepted is the beginning of it. -/
theorem Accepts.initial {data : List UInt8} {written : Except Failure ℕ}
    (h : Accepts (.handshake data written :: out) given) (hnone : offered out = []) :
    given <+: data := by
  cases h with
  | @handshake _ _ _ given hrest =>
      rw [hrest.eq_nil hnone, List.append_nil]
      cases written with
      | error f => exact List.nil_prefix
      | ok n => exact List.take_prefix n data
  | other he _ => cases he

theorem accepts_of_gave {trace : List (Moment (Option Publisher) PublisherInput PublisherEvent)}
    (h : Gave serverEnd.gives trace given) : Accepts (Machine.outputs trace) given := by
  induction h with
  | nil => exact .nil
  | snoc _ hgives ih =>
      rw [Machine.outputs_snoc]
      exact ih.append hgives

end Accepted

/-! ### Both sides together -/

theorem length_hello_le (policy : GrowthPolicy) (o : ConnectOutcome) :
    (hello policy o).length ≤ 1537 := by
  obtain ⟨socket, setNonblocking, connect, add, random⟩ := o
  have hlength : ([3] ++ List.replicate 4 0 ++ List.replicate 4 0 ++
      (List.range 1528).map fun i => random (9 + i)).length = 1537 := by
    simp only [List.length_append, List.length_replicate, List.length_map, List.length_range,
      List.length_singleton]
  cases socket <;> cases setNonblocking <;> cases connect <;> cases add <;>
    first | exact hlength.le | exact Nat.zero_le _

/-- The client has got the answer to the very C1 that it has sent. -/
def Agreed (hello : List UInt8) (trace : List LinkMoment) : Prop :=
  ∃ s1 written, s1.length = 1536 ∧
    .handshake (3 :: s1 ++ hello.drop 1) written ∈ Machine.outputs (rightTrace trace) ∧
    (Duplex.taken EventClient.readOf (leftTrace trace)).take 3073 = 3 :: s1 ++ hello.drop 1

/-- What holds of both sides together. -/
structure Joined (hello : List UInt8) (growth : GrowthPolicy) (trace : List LinkMoment)
    (s : LinkState) : Prop where
  talks : s.left.Talks hello (leftTrace trace)
  served : Served growth (rightTrace trace) s.right
  brief : ∀ m ∈ rightTrace trace, Brief m
  agreed : s.left.session.handshake.isDone = true → Agreed hello trace

section Joined

variable {policy growth : GrowthPolicy} {o : ConnectOutcome} {trace : List LinkMoment} {s s' : LinkState}

/-- What the server has received is the beginning of what the client has sent. -/
theorem received_append_up
    (hrun : Run (Step (clientEnd policy) serverEnd) (start policy o growth) trace s) :
    received (rightTrace trace) ++ s.up = serverBytes (leftTrace trace) := by
  have hconserved := Duplex.conserved_up hrun
  have hgave := (Duplex.run_left hrun).2.eq_flatMap
  rw [hgave] at hconserved
  exact hconserved.symm

/-- **The first read of the server brings no more than C0 and C1**: before the server has answered, the
client has sent nothing else. -/
theorem Joined.next_brief
    (hrun : Run (Step (clientEnd policy) serverEnd) (start policy o growth) trace s)
    (h : Joined (hello policy o) growth trace s) {i : PublisherInput} {out : List PublisherEvent}
    {up : List UInt8} (hup : s.up = serverEnd.takes s.right i ++ up) : Brief ⟨s.right, i, out⟩ := by
  intro pub hpub hstate
  dsimp only at hpub
  have hserved := h.served
  rw [hpub] at hserved
  cases hserved with
  | start hreceived hout =>
      -- the server has said nothing, so the client has heard nothing
      have hsilent : givenRight trace = [] := by
        have haccepts := accepts_of_gave (Duplex.run_right hrun).2
        rw [hout] at haccepts
        exact haccepts.eq_nil rfl
      obtain ⟨htaken, -⟩ := Duplex.taken_left_of_silent hrun rfl hsilent
      have hpending : s.left.session.handshake.isDone = false := by
        by_contra hdone
        rw [Bool.not_eq_false] at hdone
        obtain ⟨-, hlong, -⟩ := h.talks.heard.done hdone
        rw [show Duplex.taken EventClient.readOf (leftTrace trace) = [] from htaken] at hlong
        exact absurd hlong (by decide)
      have hsent := (h.talks.serverBytes_pending hpending).length_le
      have hbytes := received_append_up hrun
      rw [hreceived, List.nil_append, hup, hpub] at hbytes
      have hlength := congrArg List.length hbytes
      rw [List.length_append] at hlength
      have hdata : (serverEnd.takes (some (Publisher.new growth)) i).length = i.data.length := rfl
      have hle := length_hello_le policy o
      show i.data.length ≤ 1537
      omega
  | answered hfresh hsent _ _ _ _ =>
      rw [hfresh] at hstate
      cases hsent.symm.trans hstate
  | done hlistens _ _ _ =>
      have hdone := hlistens.done
      rw [Rtmp.Handshake.isDone, hstate] at hdone
      cases hdone

/-- **The client gets to the end of its handshake with the answer to its C1**: the server has said
nothing else up to then. -/
theorem Joined.agreed_of_completes
    (hrun : Run (Step (clientEnd policy) serverEnd) (start policy o growth) trace s)
    (h : Joined (hello policy o) growth trace s) (hpending : s.left.session.handshake.isDone = false)
    {action : ClientAction} {down : List UInt8} (hdown : s.down = s.left.readOf action ++ down)
    (hlong : 3073 ≤ (Duplex.taken EventClient.readOf (leftTrace trace) ++ s.left.readOf action).length) :
    ∃ s1 written, s1.length = 1536 ∧
      .handshake (3 :: s1 ++ (hello policy o).drop 1) written ∈ Machine.outputs (rightTrace trace) ∧
      (Duplex.taken EventClient.readOf (leftTrace trace) ++ s.left.readOf action).take 3073 =
        3 :: s1 ++ (hello policy o).drop 1 := by
  have hsent := h.talks.serverBytes_pending hpending
  have hreceived : received (rightTrace trace) <+: hello policy o :=
    (List.prefix_append _ s.up).trans ((received_append_up hrun).symm ▸ hsent)
  have hle := length_hello_le policy o
  have hshort : (received (rightTrace trace)).length < 3073 := by
    have := hreceived.length_le
    omega
  -- what the client has got is the beginning of what the server has said
  have haccepts := accepts_of_gave (Duplex.run_right hrun).2
  have htaken : Duplex.taken EventClient.readOf (leftTrace trace) ++ s.left.readOf action <+:
      givenRight trace := by
    have hconserved := Duplex.conserved_down hrun
    rw [hdown, ← List.append_assoc] at hconserved
    exact ⟨down, hconserved.symm⟩
  rcases h.served.answersOnly hshort with hnone | ⟨s1, written, rest, hs1, hhello, hout, hnone⟩
  · rw [haccepts.eq_nil hnone] at htaken
    have := htaken.length_le
    rw [List.length_nil] at this
    omega
  · rw [hout] at haccepts
    have hall : received (rightTrace trace) = hello policy o :=
      hreceived.eq_of_length_le (hle.trans hhello.1)
    have hc1 : clientChallenge (received (rightTrace trace)) = (hello policy o).drop 1 := by
      rw [hall, clientChallenge]
      exact List.take_of_length_le (by rw [List.length_drop]; omega)
    have hanswer := htaken.trans (haccepts.initial hnone)
    have hlength := Relay.length_handshakeResponse hs1 hhello
    have hwhole := hanswer.eq_of_length_le (by omega)
    refine ⟨s1, written, hs1, ?_, ?_⟩
    · rw [hout, ← hc1]
      exact List.mem_cons_self
    · rw [hwhole, List.take_of_length_le hlength.le, handshakeResponse, hc1]

/-- **One step of one of them.** -/
theorem Joined.step {i : Duplex.Input ClientAction PublisherInput UInt8}
    {out : List (LoopOutput ⊕ PublisherEvent)}
    (hrun : Run (Step (clientEnd policy) serverEnd) (start policy o growth) trace s)
    (h : Joined (hello policy o) growth trace s)
    (hproper : ∀ m ∈ Duplex.leftMoment ⟨s, i, out⟩, Proper m)
    (hstep : Step (clientEnd policy) serverEnd s i out s') :
    Joined (hello policy o) growth (trace ++ [⟨s, i, out⟩]) s' := by
  rcases hstep.cases with
    ⟨action, events, given, rfl, hcall, -, hsame, hdown, -, hmoment, hnone⟩ |
    ⟨input, events, given, rfl, hcall, -, hsame, hup, -, hmoment, hnone⟩
  · have hleft : leftTrace (trace ++ [⟨s, .left action given, out⟩]) =
        leftTrace trace ++ [⟨s.left, action, events⟩] := by
      rw [Duplex.leftTrace_snoc, hmoment, Option.toList_some]
    have hright : rightTrace (trace ++ [⟨s, .left action given, out⟩]) = rightTrace trace := by
      rw [Duplex.rightTrace_snoc, hnone, Option.toList_none, List.append_nil]
    have hm := hproper _ hmoment
    have htalks := h.talks.step hm.once hm.whole hcall
    refine ⟨hleft ▸ htalks, ?_, hright ▸ h.brief, fun hdone => ?_⟩
    · rw [hright, hsame]
      exact h.served
    · rw [Agreed, hright, hleft, Duplex.taken_snoc]
      cases hdone₁ : s.left.session.handshake.isDone with
      | true =>
          obtain ⟨s1, written, hs1, hmem, htaken⟩ := h.agreed hdone₁
          obtain ⟨-, hlong, -⟩ := h.talks.heard.done hdone₁
          exact ⟨s1, written, hs1, hmem, by rw [List.take_append_of_le_length hlong, htaken]⟩
      | false =>
          obtain ⟨-, hlong, -⟩ := htalks.heard.done hdone
          rw [Duplex.taken_snoc] at hlong
          exact h.agreed_of_completes hrun hdone₁ hdown hlong
  · have hleft : leftTrace (trace ++ [⟨s, .right input given, out⟩]) = leftTrace trace := by
      rw [Duplex.leftTrace_snoc, hnone, Option.toList_none, List.append_nil]
    have hright : rightTrace (trace ++ [⟨s, .right input given, out⟩]) =
        rightTrace trace ++ [⟨s.right, input, events⟩] := by
      rw [Duplex.rightTrace_snoc, hmoment, Option.toList_some]
    have hbrief : Brief ⟨s.right, input, events⟩ := h.next_brief hrun hup
    refine ⟨?_, ?_, fun m hm => ?_, fun hdone => ?_⟩
    · rw [hleft, hsame]
      exact h.talks
    · rw [hright]
      exact h.served.step hbrief hcall
    · rw [hright] at hm
      rcases List.mem_append.1 hm with hm | hm
      · exact h.brief m hm
      · rw [List.mem_singleton.1 hm]
        exact hbrief
    · rw [hsame] at hdone
      obtain ⟨s1, written, hs1, hmem, htaken⟩ := h.agreed hdone
      refine ⟨s1, written, hs1, ?_, by rw [hleft, htaken]⟩
      rw [hright, Machine.outputs_snoc]
      exact List.mem_append_left _ hmem

/-- **What holds of both sides together, in every run.** -/
theorem Linked.joined (h : Linked policy o growth trace s) :
    Joined (hello policy o) growth trace s := by
  refine h.run.invariant (P := fun m => ∀ m' ∈ Duplex.leftMoment m, Proper m')
    (I := fun trace s => Joined (hello policy o) growth trace s) (fun m hm m' hm' => ?_) ?_
    fun hrun hjoined hproper hstep => hjoined.step hrun hproper hstep
  · exact h.proper m' (List.mem_filterMap.2 ⟨m, hm, hm'⟩)
  · refine ⟨.connect policy o, .start rfl rfl, fun m hm => (List.not_mem_nil hm).elim, fun hdone => ?_⟩
    obtain ⟨-, hlong, -⟩ := (EventClient.Talks.connect policy o).heard.done hdone
    exact absurd hlong (by decide)

end Joined

/-! ### A dialogue -/

/-- Every call of `connect` succeeds. -/
def opened : ConnectOutcome := ⟨true, true, true, true, fun _ => 0⟩

/-- A run of the two leads to this state, and sends these messages. -/
def Leads (messages : List Message) (s : LinkState) : Prop :=
  ∃ trace, Linked .exact opened .exact trace s ∧ sentMessages (leftTrace trace) = messages

variable {messages : List Message} {c c' : EventClient} {p p' : Option Publisher}
  {up down : List UInt8}

theorem Leads.left {action : ClientAction} {events : List LoopOutput}
    (h : Leads messages ⟨c, p, up, c.readOf action ++ down⟩)
    (hcall : c.perform .exact action = .ok (c', events)) (hproper : Proper ⟨c, action, events⟩) :
    Leads (messages ++ action.sent.toList) ⟨c', p, up ++ c.wire action, down⟩ := by
  obtain ⟨trace, ⟨hrun, hall⟩, hsent⟩ := h
  have hstep : Step (clientEnd .exact) serverEnd ⟨c, p, up, c.readOf action ++ down⟩
      (.left action (c.wire action)) (events.map .inl) ⟨c', p, up ++ c.wire action, down⟩ :=
    .left hcall rfl
  have hleft := @Duplex.leftTrace_snoc _ _ _ _ _ _ _ trace
    ⟨⟨c, p, up, c.readOf action ++ down⟩, .left action (c.wire action), events.map .inl⟩
  rw [Duplex.leftMoment_left, Option.toList_some] at hleft
  refine ⟨_, ⟨hrun.snoc hstep, fun m hm => ?_⟩, ?_⟩
  · rw [hleft] at hm
    rcases List.mem_append.1 hm with hm | hm
    · exact hall m hm
    · rw [List.mem_singleton.1 hm]
      exact hproper
  · rw [hleft, sentMessages, Machine.inputs_snoc, List.filterMap_append, ← hsent, sentMessages]
    cases haction : action.sent with
    | none => rw [List.filterMap_cons_none haction, List.filterMap_nil, Option.toList_none]
    | some msg => rw [List.filterMap_cons_some haction, List.filterMap_nil, Option.toList_some]

theorem Leads.right {i : PublisherInput} {events : List PublisherEvent} {given : List UInt8}
    (h : Leads messages ⟨c, p, serverEnd.takes p i ++ up, down⟩)
    (hcall : Publisher.perform p i = .ok (p', events)) (hgiven : Accepts events given) :
    Leads messages ⟨c, p', up, down ++ given⟩ := by
  obtain ⟨trace, ⟨hrun, hall⟩, hsent⟩ := h
  have hstep : Step (clientEnd .exact) serverEnd ⟨c, p, serverEnd.takes p i ++ up, down⟩
      (.right i given) (events.map .inr) ⟨c, p', up, down ++ given⟩ := .right hcall hgiven
  have hleft := @Duplex.leftTrace_snoc _ _ _ _ _ _ _ trace ⟨⟨c, p, serverEnd.takes p i ++ up, down⟩,
    .right i given, events.map .inr⟩
  rw [show Duplex.leftMoment _ = none from rfl, Option.toList_none, List.append_nil] at hleft
  exact ⟨_, ⟨hrun.snoc hstep, hleft ▸ hall⟩, hleft ▸ hsent⟩

theorem proper_writing {events : List LoopOutput} :
    Proper ⟨EventClient.waiting fun _ => 0, EventClient.writing 1537, events⟩ where
  once _ h := by cases h
  whole _ := by
    refine ⟨fun _ _ n hn => .inr ?_, fun _ hnot => ?_, fun hread => ?_⟩
    · rw [EventClient.length_hello]
      exact (Except.ok.inj hn).symm
    · have hfalse : true = false := hnot
      cases hfalse
    · exact absurd rfl hread
  sendable := trivial

theorem proper_reading {data : List UInt8} {events : List LoopOutput} (h : c.connecting = false) :
    Proper ⟨c, EventClient.reading data, events⟩ where
  once _ h := by cases h
  whole _ := by
    refine ⟨fun hout => absurd hout (by decide), fun hout => absurd hout (by decide),
      fun _ _ => ⟨.inl h, fun n hn => ?_⟩⟩
    exact (Except.ok.inj hn).le
  sendable := trivial

theorem perform_reading_answer {answer : List UInt8} (hopen : c.socketOpen = true)
    (hinterest : c.interest ≠ none) (hconnected : c.connected = false) (hbuffer : c.readBuffer = [])
    (hcomplete : c.session.handshake.ServerComplete answer) (hlen : answer.length = 3073) :
    ∃ handshake : Rtmp.Handshake, handshake.isDone = true ∧
      c.perform .exact (EventClient.reading answer) = .ok
        ({ c with
            session := { c.session with handshake := handshake }
            connected := true }, [.did (.write ((answer.drop 1).take 1536)), .did .connectedCallback]) ∧
      c.readOf (EventClient.reading answer) = answer ∧
      c.wire (EventClient.reading answer) = (answer.drop 1).take 1536 := by
  have hanswer : answer ≠ [] := fun hnil => by simp [hnil] at hlen
  have hsome : c.interest.isSome = true := Option.isSome_iff_ne_none.2 hinterest
  have hcomplete' : c.session.handshake.ServerComplete (c.readBuffer ++ answer) := by
    rwa [hbuffer, List.nil_append]
  obtain ⟨handshake, hdone, hcall⟩ :=
    c.toClient.handleReadable_completes hconnected hanswer hcomplete' 1536
  have hrest : answer.drop Rtmp.Handshake.s0s1s2Size = [] := List.drop_eq_nil_of_le hlen.le
  simp only [hbuffer, List.nil_append, hrest, Rtmp.Client.processBufferedData, List.isEmpty_nil,
    if_true] at hcall
  have hread : c.handleReadable ⟨.ok answer, .ok 1536⟩ = .ok
      ({ c with
          session := { c.session with handshake := handshake }
          connected := true }, [.did (.write ((answer.drop 1).take 1536)),
        .did .connectedCallback]) := by
    rw [EventClient.handleReadable, if_pos hopen, hcall]
    simp only [hopen, Bool.not_true, Bool.and_false, Bool.false_eq_true, if_false, hbuffer]
    rfl
  refine ⟨handshake, hdone, ?_, ?_, ?_⟩
  · exact EventClient.perform_read hsome hread
  · simp only [EventClient.readOf, EventClient.reading, hsome, Bool.true_and, Bool.false_eq_true,
      if_false, hopen, if_true, Rtmp.Readiness.bytes]
  · have hshort : ((answer.drop 1).take 1536).length ≤ 1536 := List.length_take_le _ _
    simp only [EventClient.wire, EventClient.reading, hsome, if_true, hread, Bool.false_eq_true,
      if_false, Rtmp.wireOf_nil, List.nil_append]
    simp only [Rtmp.wireOf, List.flatMap_cons, List.flatMap_nil, List.append_nil, acceptedOf,
      List.take_of_length_le hshort]

/-- A read of the server. -/
def serverReads (data : List UInt8) (h : data.length ≤ 8192) : PublisherInput where
  relays := {}
  mask := Relay.readable
  outcome := Relay.readsData data h

theorem exists_answer {data : List UInt8} (hhello : ClientHello data) (hlen : data.length = 1537) :
    ∃ (pub : Publisher) (hs : Rtmp.Handshake) (s1 : List UInt8),
      pub.session = Rtmp.Session.established .exact hs ∧ hs.state = .s0s1s2Sent ∧ s1.length = 1536 ∧
      Publisher.perform (some (Publisher.new .exact)) (serverReads data (by omega)) =
        .ok (some pub, [.handshake (handshakeResponse s1 data) (.ok 3073)]) ∧
      Accepts [.handshake (handshakeResponse s1 data) (.ok 3073)] (handshakeResponse s1 data) := by
  have hregular : (Publisher.new .exact).Regular := .inl ⟨.exact, {}, rfl⟩
  obtain ⟨r', p, out, hevents, -, -⟩ := (hregular.returns_onEvents {} Relay.readable
    (Relay.readsData data (by omega))).exists_ok Relay.pushless_default
  have hcall : Publisher.perform (some (Publisher.new .exact)) (serverReads data (by omega)) =
      .ok (p, out) := by
    change (Publisher.onEvents {} _ Relay.readable (Relay.readsData data (by omega))).map _ = _
    rw [hevents]
    rfl
  have hhello' : ClientHello (serverReads data (by omega)).data := hhello
  have hshort : (serverReads data (by omega)).data.length < 3073 := by
    change data.length < 3073
    omega
  obtain ⟨s1, hs, hs1, hsent, rfl, rfl⟩ :=
    Publisher.perform_hello (n := 3073) hhello' hshort rfl hcall
  refine ⟨_, hs, s1, rfl, hsent, hs1, hcall, ?_⟩
  have haccepts := @Accepts.handshake (handshakeResponse s1 data) (.ok 3073) [] [] .nil
  rwa [List.append_nil, acceptedOf,
    List.take_of_length_le (Relay.length_handshakeResponse hs1 hhello).le] at haccepts

/-- The server reads C2, and its socket accepts none of the protocol messages. -/
theorem exists_established {pub : Publisher} {hs : Rtmp.Handshake} {data : List UInt8}
    (hfresh : pub.session = Rtmp.Session.established .exact hs) (hsent : hs.state = .s0s1s2Sent)
    (hlen : data.length = 1536) :
    ∃ pub' out, pub'.session.handshake.isDone = true ∧ pub'.Sound ∧
      Publisher.perform (some pub) (serverReads data (by omega)) = .ok (some pub', out) ∧
      Accepts out [] := by
  have hdata : (serverReads data (by omega)).data ≠ [] := fun hnil => by
    rw [show (serverReads data (by omega)).data = data from rfl] at hnil
    simp [hnil] at hlen
  obtain ⟨session, hlistens, hread⟩ := Publisher.readHandshake_challenge
    (r := {}) (o := Relay.readsData data (by omega)) hfresh hsent hlen.ge rfl
  rw [if_neg (by rw [hlen]; exact lt_irrefl _)] at hread
  refine ⟨{ pub with session := session }, [.chunks Publisher.protocolMessages], hlistens.done,
    hlistens.clean.sound, ?_, Accepts.chunks 0 .nil⟩
  rw [Publisher.perform_of_not_done hfresh (by simp [hsent]) hdata]
  change (pub.readHandshake {} data (Relay.readsData data (by omega))).map _ = _
  rw [hread]
  rfl

theorem exists_processed {pub : Publisher} {data : List UInt8}
    (hdone : pub.session.handshake.isDone = true) (hsound : pub.Sound) (hdata : data ≠ [])
    (hlen : data.length ≤ 8192) :
    ∃ pub' out given, Publisher.perform (some pub) (serverReads data hlen) = .ok (some pub', out) ∧
      Accepts out given := by
  obtain ⟨r', p, out, hcall, ⟨pub', rest, rfl, rfl, -, -⟩, -⟩ := (Publisher.returns_processInput
    hdone hsound data (serverReads data hlen).outcome.calls).exists_ok Relay.pushless_default
  have haccepts (events : List PublisherEvent) : ∃ given, Accepts events given := by
    induction events with
    | nil => exact ⟨[], .nil⟩
    | cons e events ih =>
        obtain ⟨given, h⟩ := ih
        cases e with
        | handshake data written => exact ⟨_, .handshake h⟩
        | chunks data => exact ⟨_, .chunks 0 h⟩
        | _ => exact ⟨given, .other rfl h⟩
  obtain ⟨given, hgiven⟩ := haccepts (.processInput data :: rest)
  refine ⟨pub', _, given, ?_, hgiven⟩
  have hdata' : (serverReads data hlen).data ≠ [] := hdata
  rw [Publisher.perform_of_data hdata', if_neg (by simp [hdone])]
  change (pub.processInput {} data _).map _ = _
  rw [hcall]
  rfl

theorem leads_dialogue : ∃ s, Leads [EventClient.sampleMessage] s ∧ s.left.socketOpen = true ∧
    s.left.session.handshake.isDone = true ∧ s.left.queue = [] ∧ s.up = [] ∧
    s.right.isSome = true := by
  set c₁ := EventClient.waiting fun _ => 0 with hc₁
  have hlen : c₁.handshakeData.length = 1537 := EventClient.length_hello _
  have hhello : ClientHello c₁.handshakeData := ⟨hlen.ge, rfl⟩
  have h₀ : Leads [] ⟨c₁, some (Publisher.new .exact), [], []⟩ :=
    ⟨[], ⟨.nil, fun m hm => (List.not_mem_nil hm).elim⟩, rfl⟩
  -- C0 and C1
  set c₂ := { c₁ with connecting := false }.modify ⟨true, false⟩ with hc₂
  have h₁ : Leads [] ⟨c₂, some (Publisher.new .exact), c₁.handshakeData, []⟩ := by
    have hnext := @Leads.left [] c₁ c₂ _ [] [] (EventClient.writing 1537) _ h₀
      (EventClient.perform_writing_whole fun _ => 0) proper_writing
    rw [EventClient.wire_writing, List.take_of_length_le hlen.le] at hnext
    exact hnext
  -- the answer
  obtain ⟨pub, hs, s1, hfresh, hsent, hs1, hcall, hgiven⟩ := exists_answer hhello hlen
  have h₂ : Leads [] ⟨c₂, some pub, [], handshakeResponse s1 c₁.handshakeData⟩ := by
    have hnext := @Leads.right [] c₂ _ _ [] [] _ _ _ (by rwa [List.append_nil]) hcall hgiven
    exact hnext
  -- C2
  have hanswer := Relay.length_handshakeResponse hs1 hhello
  obtain ⟨handshake, hdone, hcall, hread, hwire⟩ := @perform_reading_answer c₂
    (handshakeResponse s1 c₁.handshakeData) rfl (Option.some_ne_none _) rfl rfl
    ⟨rfl, hanswer.ge, rfl⟩ hanswer
  set c₃ : EventClient := { c₂ with
    session := { c₂.session with handshake := handshake }
    connected := true } with hc₃
  set c2 := ((handshakeResponse s1 c₁.handshakeData).drop 1).take 1536 with hc2
  have hc2len : c2.length = 1536 := by
    rw [hc2, List.length_take, List.length_drop, hanswer]
    rfl
  have h₃ : Leads [] ⟨c₃, some pub, c2, []⟩ := by
    have hnext := @Leads.left [] c₂ c₃ _ [] [] _ _ (by rwa [hread, List.append_nil]) hcall
      (proper_reading rfl)
    rwa [hwire] at hnext
  -- the protocol messages
  obtain ⟨pub', out, hdone', hsound', hcall, hgiven⟩ := exists_established hfresh hsent hc2len
  have h₄ : Leads [] ⟨c₃, some pub', [], []⟩ := by
    have hnext := @Leads.right [] c₃ _ _ [] [] _ _ _ (by rwa [List.append_nil]) hcall hgiven
    exact hnext
  -- a message is queued
  have hsound₃ : c₃.Sound := ⟨Rtmp.Buffer.plain_clear _, rfl, fun _ => ⟨rfl, rfl⟩⟩
  have hempty : c₃.queue = [] := Rtmp.Buffer.readable_clear (Rtmp.Session.new .exact).writeBuffer
  have htransmits : c₃.Transmits := ⟨rfl, rfl, fun _ => Option.some_ne_none _⟩
  have hencoding : (ClientAction.sendMessage EventClient.sampleMessage).encoding
      c₃.session.outChunkSize = some (.ok [4, 0, 0, 0, 0, 0, 3, 8, 0, 0, 0, 0, 1, 2, 3]) := rfl
  obtain ⟨c₄, events, hcall, hsound₄⟩ := hsound₃.perform_send .exact hencoding
  obtain rfl := EventClient.outputs_of_send hencoding hcall
  obtain ⟨bytes, hbytes, hqueue, -, -⟩ := hsound₃.perform_send_queue htransmits hencoding hcall
  rw [hempty, Rtmp.acceptedBytes_nil, List.nil_append, List.nil_append] at hqueue
  obtain rfl := Except.ok.inj hbytes
  have hkept := EventClient.undisturbed_send hencoding hcall
  have hopen₄ : c₄.socketOpen = true := hkept.socketOpen
  have hdone₄ : c₄.session.handshake.isDone = true := by
    rw [hkept.handshake]
    exact hdone
  have hproper : Proper ⟨c₃, .sendMessage EventClient.sampleMessage, []⟩ :=
    ⟨fun _ h => ClientAction.noConfusion h, trivial,
      (by decide : (Rtmp.SenderCall.message EventClient.sampleMessage).Valid)⟩
  have h₅ : Leads [EventClient.sampleMessage] ⟨c₄, some pub', [], []⟩ :=
    @Leads.left [] c₃ c₄ _ [] [] _ _ h₄ hcall hproper
  -- it is written
  have hsession₄ : c₄.hasSession = true :=
    (hsound₄.registered (hkept.registered (Option.some_ne_none _))).2
  obtain ⟨hqueue₅, hwire⟩ := EventClient.flush_whole (n := 100) hopen₄ hsession₄
    (by rw [hqueue]; decide)
  have hproper : Proper ⟨c₄, .flush (.ok 100), (c₄.flush (.ok 100)).2⟩ :=
    ⟨fun _ h => ClientAction.noConfusion h, fun _ => .inl hdone₄, trivial⟩
  have h₆ := @Leads.left _ c₄ _ _ [] [] (.flush (.ok 100)) _ h₅ rfl hproper
  rw [hwire, hqueue] at h₆
  -- and read
  obtain ⟨pub'', out, given, hcall, hgiven⟩ := exists_processed hdone' hsound'
    (by decide : [4, 0, 0, 0, 0, 0, 3, 8, 0, 0, 0, 0, 1, 2, 3] ≠ ([] : List UInt8)) (by decide)
  have h₇ := @Leads.right _ _ _ _ [] [] _ _ _ h₆ hcall hgiven
  have hkept := c₄.undisturbed_flush (.ok 100)
  exact ⟨_, h₇, hkept.socketOpen.trans hopen₄, hkept.handshake ▸ hdone₄, hqueue₅, rfl, rfl⟩

/-! ### What both sides can rely on -/

section Rely

variable {policy growth : GrowthPolicy} {o : ConnectOutcome} {trace : List LinkMoment} {s : LinkState}

end Rely

end Link
