/-
**The handshake of a server.**

A publisher begins with C0, C1 and C2, which are 3073 bytes, and the server answers C1 with S0, S1 and
S2.  The callback of a publisher looks at each read for itself: it takes C0 and C1 out of the first
one, and C2 out of the second one or, if the first one is long enough, out of the first one too.  In
that case the handshake is done at once, and the publisher is never answered.

Main definitions:

* `Relay.PublisherInput.data`, `Relay.received` — what is read from a publisher;
* `Relay.HandshakeFirst` — the server answers C1, once, before anything else;
* `Relay.Orderly` — a read that can be answered;
* `Relay.Phase` — how far a connection has come.

Main results:

* `Relay.Publisher.readHandshake_uninitialized`, `Relay.Publisher.readHandshake_sent` — the two reads of
  a handshake;
* `Relay.Publisher.readHandshake_done_eq` — what the read that completes it is followed by;
* `Relay.Phase.step`, `Relay.phase_of_run` — one step of a connection, and all of them;
* `Relay.RelayManager.Regular.exists_run` — a manager without pushers can be run on any inputs;
* `Relay.handshakeFirst_iff` — **the answer comes first exactly if every read is orderly**.
-/

import RtmpTranscoder.RelayManager

set_option relaxedAutoImplicit false
set_option autoImplicit false

namespace Relay

open Rtmp (Failure Session GrowthPolicy Handshake EpollEvents)
open Rtmp.Handshake (ClientHello clientChallenge)

def PublisherInput.data (i : PublisherInput) : List UInt8 :=
  if i.mask.epollErr || i.mask.epollHup || !i.mask.epollIn then []
  else
    match i.outcome.read with
    | .ok data => data
    | .error _ => []

/-- The reads of a connection, while it is one. -/
def received
    (trace : List (Machine.Moment (Option Publisher) PublisherInput PublisherEvent)) : List UInt8 :=
  trace.flatMap fun m => if m.state.isSome then m.input.data else []

@[simp] theorem received_nil : received [] = [] := rfl

@[simp] theorem received_snoc
    (trace : List (Machine.Moment (Option Publisher) PublisherInput PublisherEvent))
    (m : Machine.Moment (Option Publisher) PublisherInput PublisherEvent) :
    received (trace ++ [m]) = received trace ++ if m.state.isSome then m.input.data else [] := by
  simp [received]

/-! ### One read -/

namespace Publisher

variable {r : Relays} {pub : Publisher} {growth : GrowthPolicy} {data : List UInt8}
  {o : PublisherOutcome}

/-- The window acknowledgement size, as it is sent. -/
def windowAckSizeBytes : List UInt8 := [2, 0, 0, 0, 0, 0, 4, 5, 0, 0, 0, 0, 0, 38, 37, 160]

def peerBandwidthBytes : List UInt8 := [2, 0, 0, 0, 0, 0, 5, 6, 0, 0, 0, 0, 0, 38, 37, 160, 2]

def chunkSizeBytes : List UInt8 := [2, 0, 0, 0, 0, 0, 4, 1, 0, 0, 0, 0, 0, 0, 16, 0]

def protocolMessages : List UInt8 := windowAckSizeBytes ++ peerBandwidthBytes ++ chunkSizeBytes

/-- **A session that has sent nothing sends the first protocol messages.** -/
theorem sendProtocolMessages_spec {hs : Handshake}
    (hfresh : pub.session = Session.established growth hs) (hdone : hs.isDone = true)
    (written : Except Failure ℕ) :
    ∃ session : Session, session.handshake = hs ∧
      session.parser = (Session.established growth hs).parser ∧ session.outChunkSize = 4096 ∧
      session.writeBuffer.Plain ∧ session.writeBuffer.readable = [] ∧
      pub.sendProtocolMessages written =
        match written with
        | .error _ => .ok (none, [.chunks protocolMessages, .removed])
        | .ok _ => .ok (some { pub with session := session }, [.chunks protocolMessages]) := by
  have hack : (Session.established growth hs).sendWindowAckSize 2500000 = .ok
      { Session.established growth hs with
        writeBuffer := (Rtmp.Buffer.new growth).append windowAckSizeBytes } := rfl
  have hbandwidth (buffer : Rtmp.Buffer) :
      { Session.established growth hs with writeBuffer := buffer }.sendSetPeerBandwidth 2500000 2 = .ok
        { Session.established growth hs with writeBuffer := buffer.append peerBandwidthBytes } := rfl
  have hsize (buffer : Rtmp.Buffer) :
      { Session.established growth hs with writeBuffer := buffer }.sendSetChunkSize 4096 = .ok
        { Session.established growth hs with
          writeBuffer := buffer.append chunkSizeBytes, outChunkSize := 4096 } := rfl
  have hplain := (Rtmp.Buffer.Plain.new growth).append windowAckSizeBytes
  obtain ⟨buffer, hbuffer⟩ : ∃ buffer, (((Rtmp.Buffer.new growth).append windowAckSizeBytes).append
    peerBandwidthBytes).append chunkSizeBytes = buffer := ⟨_, rfl⟩
  have hreadable : buffer.readable = protocolMessages := by
    rw [← hbuffer, (hplain.append _).readable_append, hplain.readable_append,
      (Rtmp.Buffer.Plain.new growth).readable_append, Rtmp.Buffer.readable_new]
    rfl
  refine ⟨{ Session.established growth hs with
    writeBuffer := buffer.clear, outChunkSize := 4096 }, rfl, rfl, rfl, Rtmp.Buffer.plain_clear _,
    Rtmp.Buffer.readable_clear _, ?_⟩
  have hdone' : pub.session.handshake.isDone = true := by
    rw [hfresh]
    exact hdone
  rw [sendProtocolMessages, if_pos hdone', hfresh]
  simp only [hack, hbandwidth, hsize, hbuffer, bind, Except.bind, Session.getOutgoingData, hreadable]
  cases written <;> rfl

/-- A read has completed the handshake; `rest` is what it has behind C2. -/
inductive Completes (o : PublisherOutcome) (rest : List UInt8) :
    Option Publisher → List PublisherEvent → Prop
  | failed {f : Failure} : o.protocolWritten = .error f →
      Completes o rest none [.chunks protocolMessages, .removed]
  | done {n : ℕ} {pub : Publisher} {out : List PublisherEvent} : o.protocolWritten = .ok n →
      pub.session.handshake.isDone = true → pub.Sound → Took rest out →
      Completes o rest (some pub) (.chunks protocolMessages :: out)

/-- The last read of a handshake: the first protocol messages are sent, and what is behind C2 is given
to the session. -/
theorem readHandshake_done_eq {hs hs' : Handshake} {consumed : ℕ}
    (hfresh : pub.session = Session.established growth hs)
    (htake : hs.processClientHandshake data = (hs', .ok consumed)) (hdone : hs'.state = .done) :
    ∃ session : Session, session.handshake = hs' ∧
      session.parser = (Session.established growth hs').parser ∧ session.outChunkSize = 4096 ∧
      session.writeBuffer.Plain ∧ session.writeBuffer.readable = [] ∧
      pub.readHandshake r data o =
        match o.protocolWritten with
        | .error _ => .ok (r, none, [.chunks protocolMessages, .removed])
        | .ok _ =>
            if consumed < data.length then
              (processInput r { pub with session := session } (data.drop consumed) o.calls).map
                fun result => (result.1, result.2.1, .chunks protocolMessages :: result.2.2)
            else .ok (r, some { pub with session := session }, [.chunks protocolMessages]) := by
  have hisDone : hs'.isDone = true := by
    rw [Handshake.isDone, hdone]
    rfl
  have hnot : ¬ (hs'.state = .s0s1s2Sent ∧ 1537 ≤ data.length) := by
    rintro ⟨hstate, -⟩
    rw [hdone] at hstate
    cases hstate
  obtain ⟨session, hhandshake, hparser, hsize, hplain, hreadable, hsend⟩ := sendProtocolMessages_spec
    (show { pub with session := Session.established growth hs' }.session = _ from rfl) hisDone
    o.protocolWritten
  refine ⟨session, hhandshake, hparser, hsize, hplain, hreadable, ?_⟩
  have hresponse : sendHandshakeResponse { pub with session := Session.established growth hs' } data o
      = .ok (some { pub with session := Session.established growth hs' }, []) := if_neg hnot
  have hestablished : { Session.established growth hs with handshake := hs' }
      = Session.established growth hs' := rfl
  have htake' : (Session.established growth hs).handshake.processClientHandshake data
      = (hs', .ok consumed) := htake
  simp only [readHandshake, hfresh, htake', hestablished, hresponse, hsend]
  cases hwritten : o.protocolWritten with
  | error f => rfl
  | ok n =>
      have hsession : session.handshake.isDone = true := by
        rw [hhandshake]
        exact hisDone
      simp only
      by_cases hmore : consumed < data.length
      · rw [if_pos ⟨hsession, hmore⟩, if_pos hmore]
        cases processInput r { pub with session := session } (data.drop consumed) o.calls <;> rfl
      · rw [if_neg fun h => hmore h.2, if_neg hmore]
        rfl

theorem readHandshake_done {hs hs' : Handshake} {consumed : ℕ}
    (hfresh : pub.session = Session.established growth hs)
    (htake : hs.processClientHandshake data = (hs', .ok consumed)) (hdone : hs'.state = .done) :
    Returns r (fun _ => Completes o (data.drop consumed)) (pub.readHandshake r data o) := by
  obtain ⟨session, hhandshake, -, hsize, -, -, hread⟩ :=
    readHandshake_done_eq (r := r) (o := o) hfresh htake hdone
  rw [hread]
  cases hwritten : o.protocolWritten with
  | error f => exact ⟨.failed hwritten, id⟩
  | ok n =>
      have hsound : Sound { pub with session := session } := by
        rw [Sound, hsize]
        decide
      have hsession : session.handshake.isDone = true := by
        rw [hhandshake, Handshake.isDone, hdone]
        rfl
      simp only
      by_cases hmore : consumed < data.length
      · have hsession' : { pub with session := session }.session.handshake.isDone = true := hsession
        rw [if_pos hmore]
        refine (returns_processInput hsession' hsound (data.drop consumed) o.calls).map
          fun _ pub' out htakes => ?_
        obtain ⟨p, rest, rfl, rfl, hkeeps, hrest⟩ := htakes
        refine .done hwritten ?_ ?_ (.inr ⟨rest, rfl, hrest⟩)
        · rw [hkeeps.handshake]
          exact hsession
        · rw [Sound, hkeeps.outChunkSize]
          exact hsound
      · rw [if_neg hmore]
        refine ⟨.done hwritten hsession hsound (.inl ⟨?_, rfl⟩), id⟩
        exact List.drop_eq_nil_of_le (not_lt.1 hmore)

theorem sendHandshakeResponse_spec {hs hs' : Handshake} {response : List UInt8}
    (hfresh : pub.session = Session.established growth hs) (hstate : hs.state = .s0s1s2Sent)
    (hlen : 1537 ≤ data.length)
    (hgenerate : hs.generateS0S1S2 o.random (clientChallenge data) = (hs', .ok response)) :
    pub.sendHandshakeResponse data o =
      match o.responseWritten with
      | .error f => .ok (none, [.handshake response (.error f), .removed])
      | .ok n => .ok (some { pub with session := Session.established growth hs' },
          [.handshake response (.ok n)]) := by
  have hcond : (Session.established growth hs).handshake.state = .s0s1s2Sent ∧
      1537 ≤ data.length := ⟨hstate, hlen⟩
  have hresponse : (Session.established growth hs).generateServerHandshakeResponse o.random
      ((data.drop 1).take 1536) = (Session.established growth hs', .ok response) := by
    have hgenerate' : (Session.established growth hs).handshake.generateS0S1S2 o.random
        ((data.drop 1).take 1536) = (hs', .ok response) := hgenerate
    rw [Session.generateServerHandshakeResponse, hgenerate']
    rfl
  cases hwritten : o.responseWritten with
  | error f => simp only [sendHandshakeResponse, if_pos hcond, hfresh, hresponse, hwritten]
  | ok n => simp only [sendHandshakeResponse, if_pos hcond, hfresh, hresponse, hwritten]

/-- **The first read of a handshake**: it is useless, or it is answered, or it has C2 as well and is not
answered. -/
theorem readHandshake_uninitialized {hs : Handshake}
    (hfresh : pub.session = Session.established growth hs) (hstate : hs.state = .uninitialized) :
    (¬ ClientHello data ∧ pub.readHandshake r data o = .ok (r, none, [.removed])) ∨
      (ClientHello data ∧ data.length < 3073 ∧
        ∃ s1 : List UInt8, s1.length = 1536 ∧
          ((∃ f, o.responseWritten = .error f ∧ pub.readHandshake r data o =
            .ok (r, none, [.handshake (3 :: s1 ++ clientChallenge data) (.error f), .removed])) ∨
          ∃ n hs', o.responseWritten = .ok n ∧ hs'.state = .s0s1s2Sent ∧
            pub.readHandshake r data o = .ok (r, some { pub with session := Session.established growth hs' },
              [.handshake (3 :: s1 ++ clientChallenge data) (.ok n)]))) ∨
      (ClientHello data ∧ 3073 ≤ data.length ∧
        Returns r (fun _ => Completes o (data.drop 3073)) (pub.readHandshake r data o)) := by
  rcases Handshake.processClientHandshake_uninitialized hstate data with
    ⟨hnot, text, htake⟩ | ⟨hhello, hlen, htake⟩ | ⟨hhello, hlen, htake⟩
  · refine .inl ⟨hnot, ?_⟩
    have htake' : (Session.established growth hs).handshake.processClientHandshake data
        = (hs, .error (.err text)) := htake
    simp only [readHandshake, hfresh, htake']
  · exact .inr (.inr ⟨hhello, hlen, readHandshake_done hfresh htake rfl⟩)
  · refine .inr (.inl ⟨hhello, hlen, ?_⟩)
    obtain ⟨s1, hs1, hgenerate⟩ := Handshake.generateS0S1S2_spec
      { hs with c1Data := clientChallenge data, state := .s0s1s2Sent } o.random
      (Handshake.length_clientChallenge hhello)
    have hsent : { hs with
        c1Data := clientChallenge data, state := .s0s1s2Sent }.state = .s0s1s2Sent := rfl
    generalize { hs with c1Data := clientChallenge data, state := .s0s1s2Sent } = hs₁
      at htake hgenerate hsent
    refine ⟨s1, hs1, ?_⟩
    have htake' : (Session.established growth hs).handshake.processClientHandshake data
        = (hs₁, .ok 1537) := htake
    have hestablished : { Session.established growth hs with handshake := hs₁ }
        = Session.established growth hs₁ := rfl
    have hsend := sendHandshakeResponse_spec (o := o)
      (show { pub with session := Session.established growth hs₁ }.session = _ from rfl) hsent
      hhello.1 hgenerate
    cases hwritten : o.responseWritten with
    | error f =>
        refine .inl ⟨f, rfl, ?_⟩
        simp only [hwritten] at hsend
        simp only [readHandshake, hfresh, htake', hestablished, hsend]
    | ok n =>
        let hs₂ : Handshake := { hs₁ with s1Data := s1, state := .s0s1s2Sent }
        refine .inr ⟨n, hs₂, rfl, rfl, ?_⟩
        simp only [hwritten] at hsend
        simp only [readHandshake, hfresh, htake', hestablished, hsend]
        rfl

/-- **The second read of a handshake**: it is too short, or it completes the handshake. -/
theorem readHandshake_sent {hs : Handshake} (data : List UInt8)
    (hfresh : pub.session = Session.established growth hs) (hstate : hs.state = .s0s1s2Sent) :
    (data.length < 1536 ∧ pub.readHandshake r data o = .ok (r, none, [.removed])) ∨
      (1536 ≤ data.length ∧
        Returns r (fun _ => Completes o (data.drop 1536)) (pub.readHandshake r data o)) := by
  rcases Handshake.processClientHandshake_sent hstate data with
    ⟨hlen, text, htake⟩ | ⟨hlen, htake⟩
  · refine .inl ⟨hlen, ?_⟩
    have htake' : (Session.established growth hs).handshake.processClientHandshake data
        = (hs, .error (.err text)) := htake
    simp only [readHandshake, hfresh, htake']
  · exact .inr ⟨hlen, readHandshake_done hfresh htake rfl⟩

/-! ### One call -/

variable {i : PublisherInput}

/-- A call that reads nothing: nothing has happened, or the connection ends. -/
theorem perform_of_data_nil (h : i.data = []) :
    perform (some pub) i = .ok (some pub, []) ∨ perform (some pub) i = .ok (none, [.removed]) := by
  obtain ⟨relays, ⟨epollIn, epollOut, epollErr, epollHup⟩, outcome⟩ := i
  unfold PublisherInput.data at h
  unfold perform onEvents
  cases epollErr with
  | true => exact .inr rfl
  | false =>
      cases epollHup with
      | true => exact .inr rfl
      | false =>
          cases epollIn with
          | false => exact .inl rfl
          | true =>
              cases hread : outcome.read with
              | error f => exact .inr rfl
              | ok data =>
                  simp only [hread] at h
                  obtain rfl : data = [] := h
                  exact .inr rfl

/-- A call that reads something: it is for the handshake, as long as that is not done, and for the
session then. -/
theorem perform_of_data (h : i.data ≠ []) :
    perform (some pub) i =
      (if !pub.session.handshake.isDone then pub.readHandshake i.relays i.data i.outcome
        else pub.processInput i.relays i.data i.outcome.calls).map fun result => result.2 := by
  obtain ⟨relays, ⟨epollIn, epollOut, epollErr, epollHup⟩, outcome⟩ := i
  unfold PublisherInput.data at h ⊢
  unfold perform onEvents
  cases epollErr with
  | true => exact absurd rfl h
  | false =>
      cases epollHup with
      | true => exact absurd rfl h
      | false =>
          cases epollIn with
          | false => exact absurd rfl h
          | true =>
              cases hread : outcome.read with
              | error f =>
                  simp only [hread] at h
                  exact absurd rfl h
              | ok data =>
                  simp only [hread] at h
                  obtain ⟨byte, rest, rfl⟩ := List.exists_cons_of_ne_nil h
                  rfl

/-- As long as the handshake is not done, what is read is for it. -/
theorem perform_of_not_done {hs : Handshake} (hfresh : pub.session = Session.established growth hs)
    (hnot : hs.state ≠ .done) (h : i.data ≠ []) :
    perform (some pub) i =
      (pub.readHandshake i.relays i.data i.outcome).map fun result => result.2 := by
  have hisDone : (!pub.session.handshake.isDone) = true := by
    rw [hfresh, Bool.not_eq_true', Handshake.isDone, beq_eq_false_iff_ne]
    exact hnot
  rw [perform_of_data h, if_pos hisDone]

end Publisher

/-! ### The answer comes first -/

open Publisher

/-- The answer to C1 is handed to the socket. -/
def PublisherEvent.IsHandshake : PublisherEvent → Prop
  | .handshake .. => True
  | _ => False

/-- The first thing the server does is to answer: it hands S0, S1 and S2 to the socket, S2 being the C1
that has been received, and does so once.  If the answer cannot be written, nothing else happens.  A
server that has done nothing has removed the connection at most. -/
def HandshakeFirst (received : List UInt8) (out : List PublisherEvent) : Prop :=
  (∀ e ∈ out, e = .removed) ∨
    ∃ (s1 : List UInt8) (written : Except Failure ℕ) (rest : List PublisherEvent),
      s1.length = 1536 ∧ (clientChallenge received).length = 1536 ∧
      out = .handshake (3 :: s1 ++ clientChallenge received) written :: rest ∧
      (∀ e ∈ rest, ¬ e.IsHandshake) ∧
      match written with
      | .ok n => 3073 ≤ n
      | .error _ => ∀ e ∈ rest, e = .removed

/-- A read is orderly unless it is the first one of its connection, and C2 is there with C0 and C1, or
the answer is not written whole. -/
def Orderly (m : Machine.Moment (Option Publisher) PublisherInput PublisherEvent) : Prop :=
  ∀ pub, m.state = some pub → pub.session.handshake.state = .uninitialized →
    ClientHello m.input.data →
      m.input.data.length < 3073 ∧ ∀ n, m.input.outcome.responseWritten = .ok n → 3073 ≤ n

/-- The server has answered. -/
def Answered (received : List UInt8) (out : List PublisherEvent) : Prop :=
  ∃ (s1 : List UInt8) (n : ℕ) (rest : List PublisherEvent),
    s1.length = 1536 ∧ ClientHello received ∧
    out = .handshake (3 :: s1 ++ clientChallenge received) (.ok n) :: rest ∧
    (∀ e ∈ rest, ¬ e.IsHandshake) ∧ 3073 ≤ n

/-- The server has done something else first, or has answered in part. -/
def Disorderly (out : List PublisherEvent) : Prop :=
  (∃ data rest, out = .chunks data :: rest) ∨
    ∃ data n rest, out = .handshake data (.ok n) :: rest ∧ n < 3073

/-- How far a connection has come. -/
inductive Phase (growth : GrowthPolicy) (received : List UInt8) (out : List PublisherEvent) :
    Option Publisher → Prop
  | start : received = [] → out = [] → Phase growth received out (some (Publisher.new growth))
  | answered {pub : Publisher} {hs : Handshake} : pub.session = Session.established growth hs →
      hs.state = .s0s1s2Sent → Answered received out → Phase growth received out (some pub)
  | done {pub : Publisher} : pub.session.handshake.isDone = true → pub.Sound →
      Answered received out → Phase growth received out (some pub)
  | ended : HandshakeFirst received out → Phase growth received out none

theorem clientChallenge_append {data : List UInt8} (h : ClientHello data) (more : List UInt8) :
    clientChallenge (data ++ more) = clientChallenge data := by
  have hlen := h.1
  rw [clientChallenge, clientChallenge, List.drop_append_of_le_length (by omega),
    List.take_append_of_le_length (by rw [List.length_drop]; omega)]

theorem clientHello_append {data : List UInt8} (h : ClientHello data) (more : List UInt8) :
    ClientHello (data ++ more) := by
  obtain ⟨hlen, hhead⟩ := h
  refine ⟨by rw [List.length_append]; omega, ?_⟩
  rw [List.head?_append, hhead]
  rfl

theorem PublisherEvent.IsHandling.not_isHandshake {e : PublisherEvent} (h : e.IsHandling) :
    ¬ e.IsHandshake := by
  cases e <;> first | exact id | exact absurd h id

theorem Publisher.Took.not_isHandshake {data : List UInt8} {out : List PublisherEvent}
    (h : Took data out) :
    ∀ e ∈ out, ¬ e.IsHandshake := by
  intro e he
  rcases h with ⟨-, rfl⟩ | ⟨rest, rfl, hrest⟩
  · cases he
  · rcases List.mem_cons.1 he with rfl | he
    · exact id
    · exact (hrest e he).not_isHandshake

theorem Publisher.Completes.not_isHandshake {o : PublisherOutcome} {data : List UInt8}
    {pub : Option Publisher} {out : List PublisherEvent} (h : Completes o data pub out) :
    ∀ e ∈ out, ¬ e.IsHandshake := by
  intro e he
  cases h with
  | failed _ => rcases List.mem_pair.1 he with rfl | rfl <;> exact id
  | done _ _ _ htook =>
      rcases List.mem_cons.1 he with rfl | he
      · exact id
      · exact htook.not_isHandshake e he

theorem Answered.append {received : List UInt8} {out : List PublisherEvent}
    (h : Answered received out) (data : List UInt8) {more : List PublisherEvent}
    (hmore : ∀ e ∈ more, ¬ e.IsHandshake) : Answered (received ++ data) (out ++ more) := by
  obtain ⟨s1, n, rest, hs1, hhello, rfl, hrest, hn⟩ := h
  refine ⟨s1, n, rest ++ more, hs1, clientHello_append hhello data, ?_, ?_, hn⟩
  · rw [clientChallenge_append hhello]
    rfl
  · intro e he
    exact (List.mem_append.1 he).elim (hrest e) (hmore e)

theorem Answered.handshakeFirst {received : List UInt8} {out : List PublisherEvent}
    (h : Answered received out) : HandshakeFirst received out := by
  obtain ⟨s1, n, rest, hs1, hhello, hout, hrest, hn⟩ := h
  exact .inr ⟨s1, .ok n, rest, hs1, Rtmp.Handshake.length_clientChallenge hhello, hout, hrest, hn⟩

theorem Answered.removed {received : List UInt8} {out : List PublisherEvent}
    (h : Answered received out) (data : List UInt8) :
    HandshakeFirst (received ++ data) (out ++ [.removed]) := by
  refine (h.append data fun e he => ?_).handshakeFirst
  rw [List.mem_singleton.1 he]
  exact id

theorem Disorderly.append {out : List PublisherEvent} (h : Disorderly out)
    (more : List PublisherEvent) : Disorderly (out ++ more) := by
  rcases h with ⟨data, rest, rfl⟩ | ⟨data, n, rest, rfl, hn⟩
  · exact .inl ⟨data, rest ++ more, rfl⟩
  · exact .inr ⟨data, n, rest ++ more, rfl, hn⟩

theorem Disorderly.not_handshakeFirst {received : List UInt8} {out : List PublisherEvent}
    (h : Disorderly out) : ¬ HandshakeFirst received out := by
  rintro (hquiet | ⟨s1, written, rest, -, -, hout, -, hwritten⟩)
  · rcases h with ⟨data, rest, rfl⟩ | ⟨data, n, rest, rfl, -⟩
    · cases hquiet _ List.mem_cons_self
    · cases hquiet _ List.mem_cons_self
  · rcases h with ⟨data, rest', rfl⟩ | ⟨data, n, rest', rfl, hn⟩
    · cases hout
    · obtain ⟨hevent, -⟩ := List.cons.inj hout
      obtain ⟨-, rfl⟩ := PublisherEvent.handshake.inj hevent
      exact absurd hwritten (Nat.not_le.2 hn)

/-! ### One step of a connection -/

section Step

variable {growth : GrowthPolicy} {sofar : List UInt8} {log out : List PublisherEvent}
  {pub pub' : Option Publisher} {i : PublisherInput}

/-- What is read counts while there is a connection. -/
def PublisherInput.dataFor (i : PublisherInput) (pub : Option Publisher) : List UInt8 :=
  if pub.isSome then i.data else []

/-- A step that finds a connection behind its first read is orderly. -/
theorem orderly_of_ne {p : Publisher} (h : p.session.handshake.state ≠ .uninitialized) :
    Orderly ⟨some p, i, out⟩ := by
  intro pub hpub hstate
  obtain rfl := Option.some.inj hpub
  exact absurd hstate h

theorem step_start (hstep : perform (some (Publisher.new growth)) i = .ok (pub', out)) :
    (Orderly ⟨some (Publisher.new growth), i, out⟩ ∧ Phase growth i.data out pub') ∨
      (¬ Orderly ⟨some (Publisher.new growth), i, out⟩ ∧ Disorderly out) := by
  by_cases hdata : i.data = []
  · have horderly : Orderly ⟨some (Publisher.new growth), i, out⟩ := by
      intro pub _ _ hhello
      have hlen := hhello.1
      simp [hdata] at hlen
    refine .inl ⟨horderly, ?_⟩
    rcases perform_of_data_nil hdata with hperform | hperform
    · obtain ⟨rfl, rfl⟩ := Prod.mk.inj (Except.ok.inj (hperform.symm.trans hstep))
      exact .start hdata rfl
    · obtain ⟨rfl, rfl⟩ := Prod.mk.inj (Except.ok.inj (hperform.symm.trans hstep))
      exact .ended (.inl fun e he => List.mem_singleton.1 he)
  · have hfresh : (Publisher.new growth).session = Session.established growth {} := rfl
    rw [perform_of_not_done hfresh (by decide) hdata] at hstep
    rcases readHandshake_uninitialized (r := i.relays) (o := i.outcome) hfresh rfl with
      ⟨hnot, hremoved⟩ | ⟨hhello, hlen, s1, hs1, hanswer⟩ | ⟨hhello, hlen, hreturns⟩
    · rw [hremoved] at hstep
      obtain ⟨rfl, rfl⟩ := Prod.mk.inj (Except.ok.inj hstep)
      refine .inl ⟨fun pub _ _ hhello => absurd hhello hnot, .ended (.inl fun e he => ?_)⟩
      exact List.mem_singleton.1 he
    · have hchallenge := Rtmp.Handshake.length_clientChallenge hhello
      rcases hanswer with ⟨f, hwritten, hcall⟩ | ⟨n, hs', hwritten, hsent, hcall⟩
      · rw [hcall] at hstep
        obtain ⟨rfl, rfl⟩ := Prod.mk.inj (Except.ok.inj hstep)
        refine .inl ⟨fun pub _ _ _ => ⟨hlen, fun n hn => ?_⟩, .ended (.inr ⟨s1, .error f, [.removed],
          hs1, hchallenge, rfl, ?_, ?_⟩)⟩
        · rw [hwritten] at hn
          cases hn
        · intro e he
          rw [List.mem_singleton.1 he]
          exact id
        · exact fun e he => List.mem_singleton.1 he
      · rw [hcall] at hstep
        obtain ⟨rfl, rfl⟩ := Prod.mk.inj (Except.ok.inj hstep)
        by_cases hwhole : 3073 ≤ n
        · refine .inl ⟨fun pub _ _ _ => ⟨hlen, fun k hk => ?_⟩, .answered rfl hsent
            ⟨s1, n, [], hs1, hhello, rfl, by simp, hwhole⟩⟩
          rw [hwritten] at hk
          exact Except.ok.inj hk ▸ hwhole
        · refine .inr ⟨fun horderly => ?_, .inr ⟨_, n, [], rfl, Nat.not_le.1 hwhole⟩⟩
          exact hwhole ((horderly _ rfl rfl hhello).2 n hwritten)
    · obtain ⟨r', -, hcompletes⟩ := hreturns.of_map hstep
      refine .inr ⟨fun horderly => ?_, .inl ?_⟩
      · exact absurd (horderly _ rfl rfl hhello).1 (Nat.not_lt.2 hlen)
      · cases hcompletes with
        | failed _ => exact ⟨_, _, rfl⟩
        | done _ _ _ _ => exact ⟨_, _, rfl⟩

/-- **One step of a connection**: it is orderly, and the connection goes on; or it is not, and what the
server does shows it. -/
theorem Phase.step (h : Phase growth sofar log pub) (hstep : perform pub i = .ok (pub', out)) :
    (Orderly ⟨pub, i, out⟩ ∧ Phase growth (sofar ++ i.dataFor pub) (log ++ out) pub') ∨
      (¬ Orderly ⟨pub, i, out⟩ ∧ Disorderly (log ++ out)) := by
  cases h with
  | start hsofar hlog =>
      subst hsofar hlog
      exact step_start hstep
  | @answered p hs hfresh hsent hanswered =>
      have hstate : p.session.handshake.state = .s0s1s2Sent := by
        rw [hfresh]
        exact hsent
      have hne : p.session.handshake.state ≠ .uninitialized := by
        rw [hstate]
        decide
      refine .inl ⟨orderly_of_ne hne, ?_⟩
      by_cases hdata : i.data = []
      · rcases perform_of_data_nil hdata with hperform | hperform
        · obtain ⟨rfl, rfl⟩ := Prod.mk.inj (Except.ok.inj (hperform.symm.trans hstep))
          exact .answered hfresh hsent (hanswered.append _ (by simp))
        · obtain ⟨rfl, rfl⟩ := Prod.mk.inj (Except.ok.inj (hperform.symm.trans hstep))
          exact .ended (hanswered.removed _)
      · rw [perform_of_not_done hfresh (by simp [hsent]) hdata] at hstep
        rcases readHandshake_sent (r := i.relays) (o := i.outcome) i.data hfresh hsent with
          ⟨-, hcall⟩ | ⟨-, hreturns⟩
        · rw [hcall] at hstep
          obtain ⟨rfl, rfl⟩ := Prod.mk.inj (Except.ok.inj hstep)
          exact .ended (hanswered.removed _)
        · obtain ⟨r', -, hcompletes⟩ := hreturns.of_map hstep
          have hmore := hanswered.append (i.dataFor (some p)) hcompletes.not_isHandshake
          cases hcompletes with
          | failed _ => exact .ended hmore.handshakeFirst
          | done _ hdone hsound _ => exact .done hdone hsound hmore
  | @done p hdone hsound hanswered =>
      have hne : p.session.handshake.state ≠ .uninitialized := by
        intro hstate
        rw [Rtmp.Handshake.isDone, hstate] at hdone
        cases hdone
      refine .inl ⟨orderly_of_ne hne, ?_⟩
      by_cases hdata : i.data = []
      · rcases perform_of_data_nil hdata with hperform | hperform
        · obtain ⟨rfl, rfl⟩ := Prod.mk.inj (Except.ok.inj (hperform.symm.trans hstep))
          exact .done hdone hsound (hanswered.append _ (by simp))
        · obtain ⟨rfl, rfl⟩ := Prod.mk.inj (Except.ok.inj (hperform.symm.trans hstep))
          exact .ended (hanswered.removed _)
      · rw [perform_of_data hdata, if_neg (by simp [hdone])] at hstep
        obtain ⟨r', -, p', events, rfl, rfl, hkeeps, hevents⟩ :=
          (returns_processInput hdone hsound i.data i.outcome.calls).of_map hstep
        refine .done (hkeeps.handshake ▸ hdone) ?_ (hanswered.append _ ?_)
        · rw [Sound, hkeeps.outChunkSize]
          exact hsound
        · exact Took.not_isHandshake (.inr ⟨events, rfl, hevents⟩)
  | ended hfirst =>
      obtain ⟨rfl, rfl⟩ := Prod.mk.inj (Except.ok.inj hstep)
      refine .inl ⟨fun p hp => absurd hp (by simp), .ended ?_⟩
      simpa [PublisherInput.dataFor] using hfirst

end Step

/-! ### Runs exist -/

/-- A publisher as it is at any time: its session is fresh, or behind its handshake. -/
def Publisher.Regular (pub : Publisher) : Prop :=
  (∃ growth hs, pub.session = Session.established growth hs) ∨
    pub.session.handshake.isDone = true ∧ pub.Sound

theorem Publisher.Completes.regular {o : PublisherOutcome} {data : List UInt8}
    {pub : Option Publisher} {out : List PublisherEvent} (h : Completes o data pub out) :
    ∀ p, pub = some p → p.Regular := by
  intro p hp
  cases h with
  | failed _ => cases hp
  | done _ hdone hsound _ =>
      obtain rfl := Option.some.inj hp
      exact .inr ⟨hdone, hsound⟩

/-- What is left of a publisher is regular. -/
def Publisher.Remains (pub : Option Publisher) : Prop := ∀ p, pub = some p → p.Regular

theorem Publisher.Takes.remains {pub : Publisher} {data : List UInt8} {pub' : Option Publisher}
    {out : List PublisherEvent} (hdone : pub.session.handshake.isDone = true) (hsound : pub.Sound)
    (h : pub.Takes data pub' out) : Remains pub' := by
  obtain ⟨p, rest, rfl, -, hkeeps, -⟩ := h
  intro q hq
  obtain rfl := Option.some.inj hq
  refine .inr ⟨hkeeps.handshake ▸ hdone, ?_⟩
  rw [Sound, hkeeps.outChunkSize]
  exact hsound

theorem Publisher.returns_readHandshake {pub : Publisher} (r : Relays) {growth : GrowthPolicy}
    {hs : Handshake} (hfresh : pub.session = Session.established growth hs) (data : List UInt8)
    (o : PublisherOutcome) :
    Returns r (fun _ pub' _ => Remains pub') (pub.readHandshake r data o) := by
  have hremoved {out : List PublisherEvent} :
      Returns r (fun _ pub' _ => Remains pub') (.ok (r, none, out)) :=
    ⟨fun p hp => (by cases hp), id⟩
  by_cases hstart : hs.state = .uninitialized
  · rcases readHandshake_uninitialized (r := r) (o := o) hfresh hstart with
      ⟨-, hcall⟩ | ⟨-, -, s1, -, ⟨f, -, hcall⟩ | ⟨n, hs', -, -, hcall⟩⟩ | ⟨-, -, hreturns⟩
    · rw [hcall]
      exact hremoved
    · rw [hcall]
      exact hremoved
    · rw [hcall]
      refine ⟨fun p hp => ?_, id⟩
      obtain rfl := Option.some.inj hp
      exact .inl ⟨growth, hs', rfl⟩
    · exact hreturns.mono fun _ _ _ hcompletes => hcompletes.regular
  · by_cases hsent : hs.state = .s0s1s2Sent
    · rcases readHandshake_sent (r := r) (o := o) data hfresh hsent with ⟨-, hcall⟩ | ⟨-, hreturns⟩
      · rw [hcall]
        exact hremoved
      · exact hreturns.mono fun _ _ _ hcompletes => hcompletes.regular
    · have hinvalid : (Session.established growth hs).handshake.processClientHandshake data
          = (hs, .error (.err "Invalid state")) := by
        rw [Rtmp.Handshake.processClientHandshake]
        show (if hs.state = _ then _ else if hs.state = _ then _ else _) = _
        rw [if_neg hstart, if_neg hsent]
        rfl
      have hcall : pub.readHandshake r data o = .ok (r, none, [.removed]) := by
        simp only [readHandshake, hfresh, hinvalid]
      rw [hcall]
      exact hremoved

/-- **The callback of a publisher returns**, unless a pusher that is in use is replaced. -/
theorem Publisher.Regular.returns_onEvents {pub : Publisher} (h : pub.Regular) (r : Relays)
    (mask : EpollEvents) (o : PublisherOutcome) :
    Returns r (fun _ pub' _ => Remains pub') (pub.onEvents r mask o) := by
  have hremoved : Returns r (fun _ pub' _ => Remains pub') (.ok (r, none, [.removed])) :=
    ⟨fun p hp => (by cases hp), id⟩
  unfold onEvents
  split
  · exact hremoved
  · split
    · split
      · exact hremoved
      · exact hremoved
      · split
        · rename_i hnot
          rcases h with ⟨growth, hs, hfresh⟩ | ⟨hdone, -⟩
          · exact returns_readHandshake r hfresh _ o
          · simp [hdone] at hnot
        · rename_i hnot
          have hdone : pub.session.handshake.isDone = true := by simpa using hnot
          have hsound : pub.Sound := by
            rcases h with ⟨growth, hs, hfresh⟩ | ⟨-, hsound⟩
            · rw [Sound, hfresh]
              show 1 ≤ (128 : UInt32).toNat
              decide
            · exact hsound
          exact (returns_processInput hdone hsound _ o.calls).mono fun _ _ _ htakes =>
            htakes.remains hdone hsound
    · refine ⟨fun p hp => ?_, id⟩
      obtain rfl := Option.some.inj hp
      exact h

/-- The publishers of a manager are regular. -/
def RelayManager.Regular (m : RelayManager) : Prop :=
  ∀ id pub, m.publishers id = some pub → pub.Regular

theorem RelayManager.Regular.exists_perform {m : RelayManager} (hm : m.Regular)
    (hpushless : Pushless m.toRelays) (i : RelayInput) :
    ∃ m' out, m.perform i = .ok (m', out) ∧ m'.Regular ∧ Pushless m'.toRelays := by
  have hpusher (streamId : StreamId) (event : PusherEvent) : m.onPusher streamId event = (m, []) := by
    rw [onPusher, hpushless.pushers]
  cases i with
  | accept growth =>
      refine ⟨_, _, rfl, fun id pub hpub => ?_, hpushless⟩
      by_cases hid : id = m.next
      · subst hid
        simp only [Function.update_self, Option.some.injEq] at hpub
        subst hpub
        exact .inl ⟨growth, {}, rfl⟩
      · exact hm id pub (by simpa only [Function.update_of_ne hid] using hpub)
  | events id mask o =>
      cases hpub : m.publishers id with
      | none => exact ⟨m, [], by simp only [perform, hpub], hm, hpushless⟩
      | some pub =>
          obtain ⟨r', pub', out, hcall, hremains, hpushless'⟩ :=
            ((hm id pub hpub).returns_onEvents m.toRelays mask o).exists_ok hpushless
          refine ⟨{ m with toRelays := r', publishers := Function.update m.publishers id pub' }, _,
            by simp only [perform, hpub, hcall]; rfl, fun id' p hp => ?_, hpushless'⟩
          by_cases hid : id' = id
          · subst hid
            simp only [Function.update_self] at hp
            exact hremains p hp
          · exact hm id' p (by simpa only [Function.update_of_ne hid] using hp)
  | pusherConnected streamId => exact ⟨m, [], congrArg Except.ok (hpusher _ _), hm, hpushless⟩
  | pusherMessage streamId stale msg => exact ⟨m, [], congrArg Except.ok (hpusher _ _), hm, hpushless⟩
  | pusherDisconnected streamId resolve =>
      exact ⟨m, [], congrArg Except.ok (hpusher _ _), hm, hpushless⟩

/-- **A manager without pushers can be run on any inputs.** -/
theorem RelayManager.Regular.exists_run {m : RelayManager} (h : m.Regular)
    (hpushless : Pushless m.toRelays) (is : List RelayInput) :
    ∃ trace m', Machine.Run RelayManager.machine m trace m' ∧ Machine.inputs trace = is ∧
      m'.Regular := by
  obtain ⟨trace, m', hrun, hinputs, hregular, -⟩ := @Machine.exists_run _ _ _ _ perform
    (fun m => m.Regular ∧ Pushless m.toRelays) (fun _ => True)
    (fun h _ => h.1.exists_perform h.2 _) is (fun _ _ => trivial) m ⟨h, hpushless⟩
  exact ⟨trace, m', hrun, hinputs, hregular⟩

/-! ### Whole connections -/

/-- **The phases of a connection**: as long as every read is orderly the connection is in one of them,
and after a read that is not the server has shown it. -/
theorem phase_of_run {growth : GrowthPolicy} {pub : Option Publisher}
    {trace : List (Machine.Moment (Option Publisher) PublisherInput PublisherEvent)}
    (hrun : Machine.Run publisherMachine (some (Publisher.new growth)) trace pub) :
    ((∀ m ∈ trace, Orderly m) ∧ Phase growth (received trace) (Machine.outputs trace) pub) ∨
      ((∃ m ∈ trace, ¬ Orderly m) ∧ Disorderly (Machine.outputs trace)) := by
  induction hrun with
  | nil => exact .inl ⟨by simp, .start rfl rfl⟩
  | @snoc trace pub pub' i out hrun hstep ih =>
      rw [received_snoc, Machine.outputs_snoc]
      rcases ih with ⟨horderly, hphase⟩ | ⟨⟨m, hm, hnot⟩, hdisorderly⟩
      · rcases hphase.step hstep with ⟨hlast, hphase'⟩ | ⟨hlast, hdisorderly⟩
        · refine .inl ⟨fun m hm => ?_, hphase'⟩
          rcases List.mem_append.1 hm with hm | hm
          · exact horderly m hm
          · rw [List.mem_singleton.1 hm]
            exact hlast
        · exact .inr ⟨⟨_, List.mem_append_right _ (List.mem_singleton_self _), hlast⟩, hdisorderly⟩
      · exact .inr ⟨⟨m, List.mem_append_left _ hm, hnot⟩, hdisorderly.append _⟩

theorem Phase.handshakeFirst {growth : GrowthPolicy} {sofar : List UInt8}
    {log : List PublisherEvent} {pub : Option Publisher} (h : Phase growth sofar log pub) :
    HandshakeFirst sofar log := by
  cases h with
  | start _ hlog => exact .inl (by simp [hlog])
  | answered _ _ hanswered => exact hanswered.handshakeFirst
  | done _ _ hanswered => exact hanswered.handshakeFirst
  | ended hfirst => exact hfirst

/-- **The answer comes first exactly if every read is orderly**, on every connection of every run of
the manager. -/
theorem handshakeFirst_iff {m m' : RelayManager} {id : ℕ} {growth : GrowthPolicy}
    {trace : List (Machine.Moment RelayManager RelayInput RelayOutput)}
    (hrun : Machine.Run RelayManager.machine m trace m') (hid : id < m.next)
    (hnew : m.publishers id = some (Publisher.new growth)) :
    HandshakeFirst (received (connection id trace)) (Machine.outputs (connection id trace)) ↔
      ∀ moment ∈ connection id trace, Orderly moment := by
  have hconnection := (run_connection hrun hid).2
  rw [hnew] at hconnection
  rcases phase_of_run hconnection with ⟨horderly, hphase⟩ | ⟨⟨moment, hmem, hnot⟩, hdisorderly⟩
  · exact iff_of_true hphase.handshakeFirst horderly
  · exact iff_of_false hdisorderly.not_handshakeFirst fun h => hnot (h moment hmem)

/-! ### A connection that reads -/

def readable : EpollEvents where
  epollIn := true
  epollOut := false
  epollErr := false
  epollHup := false

/-- Data is read, and what is sent is written whole. -/
def readsData (data : List UInt8) (h : data.length ≤ 8192) : PublisherOutcome where
  read := .ok data
  random := fun _ => 0
  responseWritten := .ok 3073
  protocolWritten := .ok 49
  calls := fun _ => ⟨0, .ok, false⟩
  length_read := by
    intro bytes hbytes
    rwa [← Except.ok.inj hbytes]

/-- A manager that has accepted one connection. -/
def acceptedOne : RelayManager where
  next := 1
  publishers := Function.update (fun _ => none) 0 (some (Publisher.new .exact))

theorem regular_acceptedOne : acceptedOne.Regular := by
  intro id pub hpub
  by_cases hid : id = 0
  · subst hid
    obtain rfl : Publisher.new .exact = pub := by
      simpa [acceptedOne] using hpub
    exact .inl ⟨.exact, {}, rfl⟩
  · simp [acceptedOne, Function.update_of_ne hid] at hpub

theorem pushless_acceptedOne : Pushless acceptedOne.toRelays := ⟨.inr rfl, fun _ => rfl⟩

/-- The inputs of a connection are those of the manager that are for it. -/
theorem inputs_connection (id : ℕ)
    (trace : List (Machine.Moment RelayManager RelayInput RelayOutput)) :
    (Machine.inputs (connection id trace)).map (fun i => (i.mask, i.outcome)) =
      (Machine.inputs trace).filterMap fun
        | .events id' mask o => if id' = id then some (mask, o) else none
        | _ => none := by
  simp only [Machine.inputs, connection, List.map_filterMap, List.filterMap_map]
  congr 1
  funext m
  obtain ⟨state, input, outputs⟩ := m
  cases input with
  | events id' mask o =>
      by_cases hid : id' = id
      · simp [connectionMoment, hid]
      · simp [connectionMoment, hid]
  | _ => rfl

theorem exists_reads (os : List PublisherOutcome) :
    ∃ trace m', Machine.Run RelayManager.machine acceptedOne trace m' ∧
      (Machine.inputs (connection 0 trace)).map (fun i => (i.mask, i.outcome)) =
        os.map fun o => (readable, o) := by
  obtain ⟨trace, m', hrun, hinputs, -⟩ :=
    regular_acceptedOne.exists_run pushless_acceptedOne (os.map fun o => .events 0 readable o)
  refine ⟨trace, m', hrun, ?_⟩
  rw [inputs_connection, hinputs, List.filterMap_map]
  exact congrFun List.filterMap_eq_map os

/-- C0 and C1, with whatever is behind them. -/
def hello (n : ℕ) : List UInt8 := 3 :: List.replicate (1536 + n) 0

theorem length_hello (n : ℕ) : (hello n).length = 1537 + n := by
  rw [hello, List.length_cons, List.length_replicate]
  omega

theorem exists_read {data : List UInt8} (h : data.length ≤ 8192) :
    ∃ trace m' m, Machine.Run RelayManager.machine acceptedOne trace m' ∧
      connection 0 trace = [m] ∧ m.state = some (Publisher.new .exact) ∧ m.input.data = data ∧
      m.input.outcome = readsData data h := by
  obtain ⟨trace, m', hrun, hinputs⟩ := exists_reads [readsData data h]
  obtain ⟨m, hm, hinput⟩ : ∃ m, connection 0 trace = [m] ∧
      (m.input.mask, m.input.outcome) = (readable, readsData data h) := by
    rw [Machine.inputs, List.map_map, List.map_singleton] at hinputs
    obtain ⟨m, hm, hinput⟩ := List.map_eq_singleton_iff.1 hinputs
    exact ⟨m, hm, hinput⟩
  obtain ⟨hmask, houtcome⟩ := Prod.mk.inj hinput
  have hconnection := (run_connection hrun (by decide : 0 < acceptedOne.next)).2
  rw [hm] at hconnection
  refine ⟨trace, m', m, hrun, hm, hconnection.of_cons.1, ?_, houtcome⟩
  rw [PublisherInput.data, hmask, houtcome]
  rfl

/-- C0 and C1 in one read are answered. -/
theorem handshakeFirst_hello : ∃ trace m', Machine.Run RelayManager.machine acceptedOne trace m' ∧
    received (connection 0 trace) = hello 0 ∧
    HandshakeFirst (received (connection 0 trace)) (Machine.outputs (connection 0 trace)) := by
  have hlen := length_hello 0
  obtain ⟨trace, m', m, hrun, hm, hstate, hdata, houtcome⟩ :=
    exists_read (by omega : (hello 0).length ≤ 8192)
  refine ⟨trace, m', hrun, ?_, ?_⟩
  · rw [hm, received, List.flatMap_singleton, hstate, hdata]
    rfl
  · refine (handshakeFirst_iff hrun (by decide) rfl).2 fun moment hmem => ?_
    rw [hm] at hmem
    rw [List.mem_singleton.1 hmem]
    intro pub _ _ _
    rw [hdata, houtcome]
    refine ⟨by omega, fun n hn => ?_⟩
    exact (Except.ok.inj hn).le

/-- C0, C1 and C2 in one read are not answered. -/
theorem handshake_unanswered : ¬ ∀ (m m' : RelayManager) (id : ℕ) (growth : GrowthPolicy)
    (trace : List (Machine.Moment RelayManager RelayInput RelayOutput)),
    Machine.Run RelayManager.machine m trace m' → id < m.next →
      m.publishers id = some (Publisher.new growth) →
      HandshakeFirst (received (connection id trace)) (Machine.outputs (connection id trace)) := by
  intro h
  have hlen := length_hello 1536
  obtain ⟨trace, m', m, hrun, hm, hstate, hdata, -⟩ :=
    exists_read (by omega : (hello 1536).length ≤ 8192)
  have hconnection := (run_connection hrun (by decide : 0 < acceptedOne.next)).2
  have hfirst := h acceptedOne m' 0 .exact trace hrun (by decide) rfl
  rcases phase_of_run hconnection with ⟨horderly, -⟩ | ⟨-, hdisorderly⟩
  · have hmem : m ∈ connection 0 trace := by
      rw [hm]
      exact List.mem_singleton_self m
    have hhello : ClientHello m.input.data := by
      rw [hdata]
      exact ⟨by omega, rfl⟩
    have hshort := (horderly m hmem _ hstate rfl hhello).1
    rw [hdata] at hshort
    omega
  · exact hdisorderly.not_handshakeFirst hfirst

end Relay
