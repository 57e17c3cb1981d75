/-
**What a client's server receives.**

A socket accepts a part of what it is given, from nothing to all of it.  `flush` and `handle_writable`
keep the rest for later.  The handshake is written past the queue: the callback that `connect` registers
writes C0 and C1 from their first byte on until they have been accepted in one piece, and
`handle_readable` writes C2 once, and does not look at how much of it has been accepted.  So the bytes
that the server gets are those of C0, C1, C2 and the chunks, in this order, as long as the socket takes
C0 and C1 whole or not at all, and C2 whole, and as long as C2 and the chunks wait for those before them.

Main definitions:

* `Rtmp.EventClient.wire`, `Rtmp.serverBytes` — the bytes that the server gets, in a step and in a run;
* `Rtmp.EventClient.expected` — the bytes that it is to get;
* `Rtmp.EventClient.WritesWhole` — a step that does not cut the handshake;
* `Rtmp.EventClient.Streams` — what the server has got fits what the client has and has queued.

Main results:

* `Rtmp.Client.handleReadable_answer` — what a read writes;
* `Rtmp.EventClient.Streams.perform` — one step;
* `Rtmp.EventClient.handshake_bytes` — **the server gets C0, C1, C2 and the chunks, in this order, if no
  step cuts the handshake**;
* `Rtmp.EventClient.not_handshake_bytes` — C0 and C1 of which one byte has been accepted come again.
-/

import RtmpTranscoder.ClientHandshake

set_option relaxedAutoImplicit false
set_option autoImplicit false

namespace Rtmp

open Machine (Moment Run)

/-- What a socket accepts of the bytes that it is given. -/
def acceptedOf (written : Except Failure ℕ) (data : List UInt8) : List UInt8 :=
  match written with
  | .ok n => data.take n
  | .error _ => []

/-- The bytes that reach the server when the socket answers `written` to a direct write. -/
def wireOf (written : Except Failure ℕ) (out : List LoopOutput) : List UInt8 :=
  out.flatMap fun
    | .accepted data => data
    | .did (.write data) => acceptedOf written data
    | .did _ => []

namespace EventClient

/-- The bytes that reach the server in a step: what a writer gets rid of, and what is accepted of a
direct write. -/
def wire (c : EventClient) : ClientAction → List UInt8
  | .flush written => wireOf written (c.flush written).2
  | .events mask o =>
      if c.interest.isSome then
        let r₁ := if mask.epollOut then c.onWritable o.written else (c, [])
        let read := if mask.epollIn then r₁.1.handleReadable o.readiness else .ok (r₁.1, [])
        wireOf o.written r₁.2 ++
          match read with
          | .ok r₂ => wireOf o.readiness.written r₂.2
          | .error _ => []
      else []
  | _ => []

/-- The bytes that the server is to get: C0 and C1, and when it has answered, C2 and the chunks. -/
def expected (c : EventClient) (chunks : List UInt8) : List UInt8 :=
  c.handshakeData ++
    if c.session.handshake.isDone then c.session.handshake.s1Data ++ chunks else []

/-- A writer of the queue does not run ahead of the handshake: before the server has answered, nothing
of the queue is accepted. -/
def QueueWaits (c : EventClient) (written : Except Failure ℕ) : Prop :=
  c.session.handshake.isDone = true ∨ c.queue = [] ∨ ∀ n, written = .ok n → n = 0

/-- A step that does not cut the handshake: C0 and C1 are accepted whole or not at all, C2 is written
behind C0 and C1 and accepted whole, and the queue waits for them. -/
def WritesWhole (c : EventClient) : ClientAction → Prop
  | .flush written => c.socketOpen = true → c.QueueWaits written
  | .events mask o =>
      c.interest ≠ none →
        (mask.epollOut = true → c.connecting = true →
          ∀ n, o.written = .ok n → n = 0 ∨ n = c.handshakeData.length) ∧
        (mask.epollOut = true → c.connecting = false → c.QueueWaits o.written) ∧
        (c.readOf (.events mask o) ≠ [] →
          c.session.handshake.ServerComplete (c.readBuffer ++ c.readOf (.events mask o)) →
          (c.connecting = false ∨
            mask.epollOut = true ∧ o.written = .ok c.handshakeData.length) ∧
          ∀ n, o.readiness.written = .ok n → 1536 ≤ n)
  | _ => True

end EventClient

/-- The bytes that reach the server in a run. -/
def serverBytes (trace : List (Moment EventClient ClientAction LoopOutput)) : List UInt8 :=
  trace.flatMap fun m => m.state.wire m.input

@[simp] theorem serverBytes_snoc (trace : List (Moment EventClient ClientAction LoopOutput))
    (m : Moment EventClient ClientAction LoopOutput) :
    serverBytes (trace ++ [m]) = serverBytes trace ++ m.state.wire m.input := by
  simp [serverBytes]

/-! ### What is written -/

section Writes

variable {written : Except Failure ℕ} {data : List UInt8} {out : List LoopOutput}

@[simp] theorem wireOf_nil : wireOf written [] = [] := rfl

/-- Where nothing is written directly, what reaches the server has been taken out of the queue. -/
theorem wireOf_eq_acceptedBytes (h : directWrites out = []) :
    wireOf written out = acceptedBytes out := by
  induction out with
  | nil => rfl
  | cons e out ih =>
      cases e with
      | accepted data => exact congrArg (data ++ ·) (ih h)
      | did event =>
          cases event with
          | write data => cases h
          | _ => exact ih h

theorem wireOf_did (events : List ClientEvent) :
    wireOf written (events.map .did) =
      (directWrites (events.map .did)).flatMap (acceptedOf written) := by
  induction events with
  | nil => rfl
  | cons event events ih =>
      cases event with
      | write data => exact congrArg (acceptedOf written data ++ ·) ih
      | _ => exact ih

theorem acceptedOf_length : acceptedOf (.ok data.length) data = data := List.take_length

end Writes

namespace Client

variable {c c' : Client} {events : List ClientEvent}

/-- What a read writes: nothing, and the handshake stays as it is; or C2, when the server has answered.
-/
structure Answers (c : Client) (data : List UInt8) (c' : Client) (events : List ClientEvent) : Prop where
  complete : data ≠ [] ∧ c.session.handshake.ServerComplete (c.readBuffer ++ data)
  done : c'.session.handshake.isDone = true
  s1Data : c'.session.handshake.s1Data = ((c.readBuffer ++ data).drop 1).take 1536
  written : directWrites (events.map .did) = [c'.session.handshake.s1Data]

/-- The read that completes the handshake is the last one, if C2 cannot be written. -/
theorem readEnds_iff {r : Readiness} (hconnected : c.connected = false) (hdata : r.bytes ≠ [])
    (hcomplete : c.session.handshake.ServerComplete (c.readBuffer ++ r.bytes)) :
    c.ReadEnds r ↔ ∃ f, r.written = .error f := by
  obtain ⟨read, written⟩ := r
  cases read with
  | error f => exact absurd rfl hdata
  | ok data =>
      constructor
      · rintro (hnil | ⟨-, -, hfailed⟩)
        · exact absurd hnil hdata
        · exact hfailed
      · intro hfailed
        exact .inr ⟨hconnected, hcomplete, hfailed⟩

theorem handshake_processBufferedData (hdone : c.session.handshake.isDone = true) :
    c.processBufferedData.1.session.handshake = c.session.handshake := by
  unfold processBufferedData
  split
  · rfl
  · exact Session.handshake_processInput hdone _

/-- **What a read writes.** -/
theorem handleReadable_answer {r : Readiness}
    (hdone : c.connected = true → c.session.handshake.isDone = true)
    (hcall : c.handleReadable r = .ok (c', events)) :
    (c'.session.handshake = c.session.handshake ∧ directWrites (events.map .did) = []) ∨
      c.Answers r.bytes c' events := by
  obtain ⟨read, written⟩ := r
  cases read with
  | error f =>
      obtain ⟨rfl, rfl⟩ := Prod.mk.inj (Except.ok.inj hcall)
      exact .inl ⟨rfl, rfl⟩
  | ok data =>
      by_cases hdata : data = []
      · subst hdata
        obtain ⟨rfl, rfl⟩ := Prod.mk.inj (Except.ok.inj hcall)
        exact .inl ⟨rfl, rfl⟩
      have hlen : data.length ≠ 0 := fun h => hdata (List.eq_nil_of_length_eq_zero h)
      cases hconnected : c.connected with
      | true =>
          -- the session gets what is read
          have hcall' : c.handleReadable ⟨.ok data, written⟩ =
              .ok { c with readBuffer := c.readBuffer ++ data }.processBufferedData := by
            simp only [handleReadable, hlen, if_false, hconnected, Bool.not_true, Bool.false_eq_true]
          obtain ⟨rfl, rfl⟩ := Prod.mk.inj (Except.ok.inj (hcall.symm.trans hcall'))
          exact .inl ⟨handshake_processBufferedData (hdone hconnected),
            (events_processBufferedData _).2.1⟩
      | false =>
          rcases c.session.handshake.processServerHandshake_cases (c.readBuffer ++ data) with
            ⟨hcomplete, hok⟩ | ⟨hnot, -⟩
          · have hlong := hcomplete.2.1
            rw [Handshake.s0s1s2Size] at hlong
            have hc2 : bytesAt (((c.readBuffer ++ data).drop 1).take 1536) 0 1536
                = .ok (((c.readBuffer ++ data).drop 1).take 1536) := by
              rw [bytesAt_of_le (by rw [List.length_take, List.length_drop]; omega), List.drop_zero,
                List.take_take, Nat.min_self]
            simp only [handleReadable, hlen, if_false, hconnected, Bool.not_false, if_true,
              handleHandshake, hok, Handshake.generateC2, hc2] at hcall
            cases written with
            | error f =>
                obtain ⟨rfl, rfl⟩ := Prod.mk.inj (Except.ok.inj hcall)
                exact .inr ⟨⟨hdata, hcomplete⟩, rfl, rfl, rfl⟩
            | ok n =>
                set c₁ : Client :=
                  { c with
                    session := { c.session with
                      handshake := { c.session.handshake with
                        s1Data := ((c.readBuffer ++ data).drop 1).take 1536, state := .done } }
                    readBuffer := (c.readBuffer ++ data).drop Handshake.s0s1s2Size
                    connected := true } with hc₁
                have hrest : (if ((c.readBuffer ++ data).drop Handshake.s0s1s2Size).isEmpty then (c₁, [])
                    else c₁.processBufferedData) = c₁.processBufferedData := by
                  split
                  · rename_i hempty
                    simp only [processBufferedData, hc₁, hempty, if_true]
                  · rfl
                have hhandshake : c₁.processBufferedData.1.session.handshake = c₁.session.handshake :=
                  handshake_processBufferedData rfl
                obtain ⟨rfl, rfl⟩ := Prod.mk.inj (Except.ok.inj hcall)
                rw [hrest]
                refine .inr ⟨⟨hdata, hcomplete⟩, by rw [hhandshake]; rfl, by rw [hhandshake]; rfl, ?_⟩
                rw [hhandshake, List.map_cons, List.map_cons]
                exact congrArg _ (events_processBufferedData c₁).2.1
          · rw [handleReadable_waits hconnected hdata hnot] at hcall
            obtain ⟨rfl, rfl⟩ := Prod.mk.inj (Except.ok.inj hcall)
            exact .inl ⟨rfl, rfl⟩

end Client

namespace EventClient

variable {c c' c₁ c'' : EventClient} {policy : GrowthPolicy} {out : List LoopOutput}
  {action : ClientAction} {written : Except Failure ℕ} {chunks sent data : List UInt8}

/-! ### The writers of the queue -/

/-- The socket, and how far the client has got. -/
structure KeepsStage (c c' : EventClient) : Prop where
  socketOpen : c'.socketOpen = c.socketOpen
  connecting : c'.connecting = c.connecting
  hasSession : c'.hasSession = c.hasSession

theorem KeepsStage.refl (c : EventClient) : c.KeepsStage c := ⟨rfl, rfl, rfl⟩

theorem KeepsStage.trans (h : c.KeepsStage c') (h' : c'.KeepsStage c'') : c.KeepsStage c'' :=
  ⟨h'.socketOpen.trans h.socketOpen, h'.connecting.trans h.connecting,
    h'.hasSession.trans h.hasSession⟩

theorem keepsStage_modify (c : EventClient) (events : Interest) : c.KeepsStage (c.modify events) :=
  ⟨rfl, rfl, rfl⟩

theorem keepsStage_takeOutgoing (c : EventClient) : c.KeepsStage c.takeOutgoing := by
  unfold takeOutgoing
  split
  · exact ⟨rfl, rfl, rfl⟩
  · exact .refl c

theorem keepsStage_setWriteBuffer (c : EventClient) (data : List UInt8) :
    c.KeepsStage { c with writeBuffer := data } := ⟨rfl, rfl, rfl⟩

theorem keepsStage_flush (c : EventClient) (written : Except Failure ℕ) :
    c.KeepsStage (c.flush written).1 := by
  unfold flush
  split
  · exact .refl c
  · have htake := c.keepsStage_takeOutgoing
    dsimp only
    split
    · exact htake
    · split
      · exact htake
      · split
        · exact (htake.trans (keepsStage_setWriteBuffer _ _)).trans (keepsStage_modify _ _)
        · exact htake.trans (keepsStage_setWriteBuffer _ _)

theorem keepsStage_handleWritable (c : EventClient) (n : ℕ) :
    c.KeepsStage (c.handleWritable (.ok n)).1 := by
  have htake := c.keepsStage_takeOutgoing
  unfold handleWritable
  dsimp only
  split
  · exact htake.trans (keepsStage_modify _ _)
  · split
    · exact htake.trans (keepsStage_setWriteBuffer _ _)
    · exact (htake.trans (keepsStage_setWriteBuffer _ _)).trans (keepsStage_modify _ _)

/-- A write that is not successful ends the connection, if there is anything to write. -/
theorem handleWritable_error (c : EventClient) (f : Failure) :
    c.KeepsStage (c.handleWritable (.error f)).1 ∨
      (c.handleWritable (.error f)).1.socketOpen = false := by
  unfold handleWritable
  dsimp only
  split
  · exact .inl (c.keepsStage_takeOutgoing.trans (keepsStage_modify _ _))
  · exact .inr rfl

theorem directWrites_flush (c : EventClient) (written : Except Failure ℕ) :
    directWrites (c.flush written).2 = [] := by
  unfold flush
  split
  · rfl
  · dsimp only
    split
    · rfl
    · split
      · rfl
      · split <;> rfl

theorem directWrites_handleWritable (c : EventClient) (written : Except Failure ℕ) :
    directWrites (c.handleWritable written).2 = [] := by
  unfold handleWritable
  dsimp only
  split
  · rfl
  · split
    · rfl
    · split <;> rfl

theorem acceptedBytes_flush (hnone : ∀ n, written = .ok n → n = 0) :
    acceptedBytes (c.flush written).2 = [] := by
  unfold flush
  split
  · rfl
  · dsimp only
    split
    · rfl
    · rename_i hne
      split
      · rfl
      · rename_i n
        obtain rfl := hnone n rfl
        rw [List.isEmpty_iff, ← List.length_eq_zero_iff] at hne
        rw [if_pos (by omega)]
        rfl

theorem acceptedBytes_handleWritable (hnone : ∀ n, written = .ok n → n = 0) :
    acceptedBytes (c.handleWritable written).2 = [] := by
  unfold handleWritable
  dsimp only
  split
  · rfl
  · rename_i hne
    split
    · rfl
    · rename_i n
      obtain rfl := hnone n rfl
      rw [List.isEmpty_iff, ← List.length_eq_zero_iff] at hne
      rw [if_pos (by omega)]
      rfl

/-! ### What the server has got -/

/-- What the server has got of what the client has sent: nothing before C0 and C1 have been accepted, C0
and C1 until the server has answered, and then C0, C1, C2 and the chunks that are not queued any more.
-/
structure Streams (chunks sent : List UInt8) (c : EventClient) : Prop where
  initial : sent <+: c.expected chunks
  greeted : c.socketOpen = true → c.session.handshake.isDone = false →
    sent = (if c.connecting then [] else c.handshakeData) ∧
      c.queue = if c.hasSession then chunks else []
  answered : c.socketOpen = true → c.session.handshake.isDone = true →
    c.connecting = false ∧ c.hasSession = true ∧
      sent ++ c.queue = c.handshakeData ++ c.session.handshake.s1Data ++ chunks

/-- The client that a first `connect` leaves behind. -/
theorem Streams.connect_new (policy : GrowthPolicy) (o : ConnectOutcome) :
    ((new policy).connect policy o).Streams [] [] := by
  have hqueue := @queue_connect (new policy) policy (Buffer.readable_new policy) o
  refine ⟨List.nil_prefix, fun _ _ => ⟨?_, by rw [hqueue, ite_self]⟩, fun _ hdone => ?_⟩
  · obtain ⟨socket, setNonblocking, connect, add, random⟩ := o
    cases socket <;> cases setNonblocking <;> cases connect <;> cases add <;> rfl
  · obtain ⟨socket, setNonblocking, connect, add, random⟩ := o
    cases socket <;> cases setNonblocking <;> cases connect <;> cases add <;>
      exact absurd hdone Bool.false_ne_true

/-- The client that a later `connect` leaves behind, which has a new session, or no open socket. -/
theorem Streams.connect_again {c₀ : EventClient} (hwrite : c₀.writeBuffer = []) {o : ConnectOutcome}
    (hset : o.setNonblocking = true) : (c₀.connect policy o).Streams [] [] := by
  obtain ⟨socket, setNonblocking, connect, add, random⟩ := o
  obtain rfl := hset
  have hempty (b : Buffer) (hb : b.readable = []) : c₀.writeBuffer ++ b.readable = [] := by
    rw [hwrite, hb, List.append_nil]
  have hnew : (Session.new policy).writeBuffer.readable = [] := Buffer.readable_new policy
  have hclear : (Session.new policy).writeBuffer.clear.readable = [] := Buffer.readable_clear _
  refine ⟨List.nil_prefix, fun hopen _ => ?_, fun hopen hdone => ?_⟩
  · cases socket with
    | false => exact absurd hopen Bool.false_ne_true
    | true =>
        cases connect with
        | false => exact ⟨rfl, hempty _ hnew⟩
        | true => cases add <;> exact ⟨rfl, hempty _ hclear⟩
  · cases socket with
    | false => exact absurd hopen Bool.false_ne_true
    | true => cases connect <;> cases add <;> exact absurd hdone Bool.false_ne_true

theorem Streams.close (h : c.Streams chunks sent)
    (hhandshake : c'.session.handshake = c.session.handshake)
    (hhello : c'.handshakeData = c.handshakeData) (hclosed : c'.socketOpen = false) :
    c'.Streams chunks sent where
  initial := by
    rw [expected, hhello, hhandshake]
    exact h.initial
  greeted hopen := absurd (hclosed.symm.trans hopen) Bool.false_ne_true
  answered hopen := absurd (hclosed.symm.trans hopen) Bool.false_ne_true

theorem Streams.cleanup (h : c.Streams chunks sent) : c.cleanup.1.Streams chunks sent :=
  h.close rfl rfl rfl

/-- **The queue moves on**, when the server has answered. -/
theorem Streams.move (h : c.Streams chunks sent) (hstage : c.KeepsStage c')
    (hhandshake : c'.session.handshake = c.session.handshake)
    (hhello : c'.handshakeData = c.handshakeData) (hqueue : data ++ c'.queue = c.queue)
    (hwait : data = [] ∨ c.socketOpen = true ∧ c.session.handshake.isDone = true) :
    c'.Streams chunks (sent ++ data) := by
  refine ⟨?_, fun hopen hdone => ?_, fun hopen hdone => ?_⟩
  · rw [expected, hhello, hhandshake]
    rcases hwait with rfl | ⟨hopen, hdone⟩
    · rw [List.append_nil]
      exact h.initial
    · obtain ⟨-, -, hall⟩ := h.answered hopen hdone
      rw [if_pos hdone, ← List.append_assoc, ← hall, ← hqueue, ← List.append_assoc]
      exact List.prefix_append _ _
  · rw [hhandshake] at hdone
    rw [hstage.socketOpen] at hopen
    have hnil : data = [] := hwait.resolve_right fun hw =>
      absurd (hw.2.symm.trans hdone) (by decide)
    subst hnil
    rw [List.nil_append] at hqueue
    rw [List.append_nil, hstage.connecting, hstage.hasSession, hhello, hqueue]
    exact h.greeted hopen hdone
  · rw [hhandshake] at hdone ⊢
    rw [hstage.socketOpen] at hopen
    rw [hstage.connecting, hstage.hasSession, hhello, List.append_assoc, hqueue]
    exact h.answered hopen hdone

theorem QueueWaits.accepted (h : c.QueueWaits written) (hqueue : data ++ c'.queue = c.queue)
    (hnone : (∀ n, written = .ok n → n = 0) → data = []) :
    data = [] ∨ c.session.handshake.isDone = true := by
  rcases h with hdone | hempty | hzero
  · exact .inr hdone
  · rw [hempty, List.append_eq_nil_iff] at hqueue
    exact .inl hqueue.1
  · exact .inl (hnone hzero)

theorem Streams.flush (h : c.Streams chunks sent)
    (hwait : c.socketOpen = true → c.QueueWaits written) :
    (c.flush written).1.Streams chunks (sent ++ c.wire (.flush written)) := by
  have hkeeps := (c.undisturbed_flush written).toKeepsStream
  have hqueue := (c.moves_flush written).queue
  rw [wire, wireOf_eq_acceptedBytes (c.directWrites_flush written)]
  refine h.move (c.keepsStage_flush written) hkeeps.handshake hkeeps.handshakeData hqueue ?_
  cases hopen : c.socketOpen with
  | false =>
      unfold EventClient.flush
      rw [hopen]
      exact .inl rfl
  | true =>
      have hdata := (hwait hopen).accepted hqueue acceptedBytes_flush
      exact hdata.imp_right fun hdone => ⟨rfl, hdone⟩

theorem Streams.handleWritable (h : c.Streams chunks sent) (hopen : c.socketOpen = true)
    (hwait : c.QueueWaits written) :
    (c.handleWritable written).1.Streams chunks
      (sent ++ wireOf written (c.handleWritable written).2) := by
  have hkeeps := c.keepsStream_handleWritable written
  have hqueue := (c.moves_handleWritable written).queue
  rw [wireOf_eq_acceptedBytes (c.directWrites_handleWritable written)]
  cases written with
  | ok n =>
      have hdata := hwait.accepted hqueue acceptedBytes_handleWritable
      exact h.move (c.keepsStage_handleWritable n) hkeeps.handshake hkeeps.handshakeData hqueue
        (hdata.imp_right fun hdone => ⟨hopen, hdone⟩)
  | error f =>
      have hnone : acceptedBytes (c.handleWritable (.error f)).2 = [] :=
        acceptedBytes_handleWritable fun n hn => by cases hn
      rcases c.handleWritable_error f with hstage | hclosed
      · exact h.move hstage hkeeps.handshake hkeeps.handshakeData hqueue (.inl hnone)
      · rw [hnone, List.append_nil]
        exact h.close hkeeps.handshake hkeeps.handshakeData hclosed

/-- **C0 and C1 are accepted in one piece**, or the queue moves on. -/
theorem Streams.onWritable (h : c.Streams chunks sent) (hopen : c.socketOpen = true)
    (hhello : c.connecting = true → ∀ n, written = .ok n → n = 0 ∨ n = c.handshakeData.length)
    (hwait : c.connecting = false → c.QueueWaits written) :
    (c.onWritable written).1.Streams chunks (sent ++ wireOf written (c.onWritable written).2) := by
  cases hconnecting : c.connecting with
  | false =>
      unfold EventClient.onWritable
      rw [hconnecting]
      exact h.handleWritable hopen (hwait hconnecting)
  | true =>
      have hpending : c.session.handshake.isDone = false := by
        by_contra hdone
        rw [Bool.not_eq_false] at hdone
        exact absurd ((h.answered hopen hdone).1.symm.trans hconnecting) Bool.false_ne_true
      obtain ⟨hsent, hqueue⟩ := h.greeted hopen hpending
      rw [hconnecting, if_pos rfl] at hsent
      subst hsent
      unfold EventClient.onWritable
      rw [hconnecting, if_pos rfl]
      cases written with
      | error f => simpa [wireOf, acceptedOf] using h
      | ok n =>
          simp only
          by_cases hall : n = c.handshakeData.length
          · subst hall
            rw [if_pos rfl]
            simp only [wireOf, List.flatMap_cons, List.flatMap_nil, acceptedOf_length, List.append_nil,
              List.nil_append]
            refine ⟨List.prefix_append _ _, fun _ _ => ⟨rfl, hqueue⟩, fun _ hdone => ?_⟩
            exact absurd (hpending.symm.trans hdone) Bool.false_ne_true
          · obtain rfl := (hhello hconnecting n rfl).resolve_right hall
            rw [if_neg hall]
            simpa [wireOf, acceptedOf] using h

/-- The server answers: C0 and C1 have been accepted, and what has been sent since waits in the queue.
What is accepted of C2 is all of it, unless the connection ends. -/
theorem Streams.answer (h : c.Streams chunks sent) (hopen : c.socketOpen = true)
    (hpending : c.session.handshake.isDone = false) (hconnecting : c.connecting = false)
    (hsession : c.hasSession = true) (hdone : c'.session.handshake.isDone = true)
    (hhello : c'.handshakeData = c.handshakeData) (hdata : data <+: c'.session.handshake.s1Data)
    (hstill : c'.socketOpen = true → c'.connecting = false ∧ c'.hasSession = true ∧
      c'.queue = c.queue ∧ data = c'.session.handshake.s1Data) :
    c'.Streams chunks (sent ++ data) := by
  obtain ⟨hsent, hwaiting⟩ := h.greeted hopen hpending
  rw [hconnecting, if_neg Bool.false_ne_true] at hsent
  rw [hsession, if_pos rfl] at hwaiting
  subst hsent
  refine ⟨?_, fun _ hundone => absurd (hdone.symm.trans hundone) (by decide), fun hopen' _ => ?_⟩
  · rw [expected, hhello, if_pos hdone, List.prefix_append_right_inj]
    exact hdata.trans (List.prefix_append _ _)
  · obtain ⟨hconnecting', hsession', hqueue, rfl⟩ := hstill hopen'
    exact ⟨hconnecting', hsession', by rw [hqueue, hwaiting, hhello]⟩

/-- **C2 is accepted in one piece**, behind C0 and C1. -/
theorem Streams.handleReadable (h : c.Streams chunks sent) (hsound : c.Sound) (hr : c.Receiving)
    (hsession : c.hasSession = true) {r : Readiness}
    (hanswer : c.socketOpen = true → r.bytes ≠ [] →
      c.session.handshake.ServerComplete (c.readBuffer ++ r.bytes) →
      c.connecting = false ∧ ∀ n, r.written = .ok n → 1536 ≤ n)
    (hcall : c.handleReadable r = .ok (c', out)) :
    c'.Streams chunks (sent ++ wireOf r.written out) := by
  obtain ⟨c'', out', hcall', -, hkeeps, -, hends⟩ := hsound.handleReadable r
  obtain ⟨rfl, rfl⟩ := Prod.mk.inj (Except.ok.inj (hcall'.symm.trans hcall))
  have hqueue : c''.queue = c.queue := by
    rw [EventClient.queue, EventClient.queue, hkeeps.writeBuffer, hkeeps.session.writeBuffer]
  unfold EventClient.handleReadable at hcall
  dsimp only at hcall
  set r' : Readiness :=
    if c.socketOpen then r else { r with read := .error (.err "Bad file descriptor") } with hr'
  cases hclient : c.toClient.handleReadable r' with
  | error f =>
      rw [hclient] at hcall
      cases hcall
  | ok q =>
      obtain ⟨client, events⟩ := q
      rw [hclient] at hcall
      obtain ⟨rfl, rfl⟩ := Prod.mk.inj (Except.ok.inj hcall)
      rw [wireOf_did]
      rcases Client.handleReadable_answer hr.connected hclient with
        ⟨hhandshake, hnone⟩ | ⟨⟨hdata, hcomplete⟩, hdone, hs1, hwrites⟩
      · -- nothing is written
        rw [hnone, List.flatMap_nil]
        rcases hends with ⟨-, hended, -⟩ | ⟨-, hopen, hconnecting, -, -⟩
        · rw [List.append_nil]
          exact h.close hhandshake rfl hended.client.socketOpen
        · exact h.move ⟨hopen, hconnecting, hkeeps.hasSession⟩ hhandshake rfl hqueue (.inl rfl)
      · -- the server has answered
        have hopen : c.socketOpen = true := by
          by_contra hclosed
          rw [hr', if_neg hclosed] at hdata
          exact hdata rfl
        have hsame : r' = r := by rw [hr', if_pos hopen]
        rw [hsame] at hdata hcomplete hs1
        obtain ⟨hconnecting, hfull⟩ := hanswer hopen hdata hcomplete
        have hpending : c.session.handshake.isDone = false := by
          rw [Handshake.isDone, hcomplete.1]
          rfl
        have hlen : client.session.handshake.s1Data.length = 1536 := by
          have hlong := hcomplete.2.1
          rw [Handshake.s0s1s2Size] at hlong
          rw [hs1, List.length_take, List.length_drop]
          omega
        have hconnected : c.connected = false := by
          by_contra hcon
          rw [Bool.not_eq_false] at hcon
          exact absurd ((hr.connected hcon).symm.trans hpending) (by decide)
        have hiff := Client.readEnds_iff hconnected hdata hcomplete
        rw [hwrites, List.flatMap_cons, List.flatMap_nil, List.append_nil]
        rcases hends with ⟨hread, hended, -⟩ | ⟨hnot, -, hstill, -, -⟩
        · -- C2 could not be written, and the connection has ended
          obtain ⟨f, hfailed⟩ := hiff.1 (hread.resolve_left fun hclosed =>
            Bool.false_ne_true (hclosed.symm.trans hopen))
          have hclosed : client.socketOpen = false := hended.client.socketOpen
          rw [hfailed, acceptedOf]
          exact h.answer hopen hpending hconnecting hsession hdone rfl List.nil_prefix
            fun ho => absurd (hclosed.symm.trans ho) Bool.false_ne_true
        · have hclient' : client.connecting = false := hstill.trans hconnecting
          cases hwritten : r.written with
          | error f => exact absurd (.inr (hiff.2 ⟨f, hwritten⟩)) hnot
          | ok n =>
              rw [acceptedOf, List.take_of_length_le (by rw [hlen]; exact hfull n hwritten)]
              exact h.answer hopen hpending hconnecting hsession hdone rfl List.prefix_rfl
                fun _ => ⟨hclient', hsession, hqueue, rfl⟩

theorem hasSession_onWritable (c : EventClient) (written : Except Failure ℕ) :
    (c.onWritable written).1.hasSession = c.hasSession := by
  unfold EventClient.onWritable
  split
  · split
    · split <;> rfl
    · rfl
  · cases written with
    | ok n => exact (c.keepsStage_handleWritable n).hasSession
    | error f =>
        unfold EventClient.handleWritable
        dsimp only
        split
        · exact (c.keepsStage_takeOutgoing.trans (keepsStage_modify _ _)).hasSession
        · exact c.keepsStage_takeOutgoing.hasSession

/-- What is sent is queued, and adds to what the server is to get. -/
theorem Streams.send (h : c.Streams chunks sent) (hsound : c.Sound)
    {encoded : Except Failure (List UInt8)} (haction : action.encoding 128 = some encoded)
    (hcall : c.perform policy action = .ok (c', out)) :
    ∃ bytes, encoded = .ok bytes ∧ c'.Streams (chunks ++ bytes) sent := by
  rw [← hsound.outChunkSize] at haction
  obtain ⟨bytes, rfl⟩ := hsound.exists_encoding haction
  have hmore : c.expected chunks <+: c.expected (chunks ++ bytes) := by
    unfold expected
    split
    · rw [← List.append_assoc, ← List.append_assoc, ← List.append_assoc]
      exact List.prefix_append _ _
    · exact List.prefix_refl _
  refine ⟨bytes, rfl, ?_⟩
  rw [EventClient.perform_send haction] at hcall
  cases hsession : c.hasSession with
  | false =>
      rw [hsession] at hcall
      obtain ⟨rfl, -⟩ := Prod.mk.inj (Except.ok.inj hcall)
      refine ⟨h.initial.trans hmore, fun hopen hdone => ?_, fun hopen hdone => ?_⟩
      · obtain ⟨hsent, hqueue⟩ := h.greeted hopen hdone
        rw [hsession] at hqueue ⊢
        exact ⟨hsent, hqueue⟩
      · exact absurd (hsession.symm.trans (h.answered hopen hdone).2.1) Bool.false_ne_true
  | true =>
      rw [hsession] at hcall
      obtain ⟨rfl, -⟩ := Prod.mk.inj (Except.ok.inj hcall)
      have hqueue : (c.enqueue bytes).queue = c.queue ++ bytes := by
        simp only [EventClient.queue, EventClient.enqueue, hsound.plain.readable_append,
          List.append_assoc]
      have henqueue : (c.enqueue bytes).Streams (chunks ++ bytes) sent := by
        refine ⟨h.initial.trans hmore, fun hopen hdone => ?_, fun hopen hdone => ?_⟩
        · obtain ⟨hsent, hwaiting⟩ := h.greeted hopen hdone
          rw [hsession, if_pos rfl] at hwaiting
          have hsession' : (c.enqueue bytes).hasSession = true := hsession
          exact ⟨hsent, by rw [hqueue, hwaiting, hsession', if_pos rfl]⟩
        · obtain ⟨hconnecting, -, hall⟩ := h.answered hopen hdone
          refine ⟨hconnecting, hsession, ?_⟩
          rw [hqueue, ← List.append_assoc, hall, List.append_assoc]
          rfl
      unfold EventClient.requestWrite
      split
      · have hrequest := henqueue.move (keepsStage_modify _ ⟨true, true⟩) rfl rfl rfl
          (@Or.inl (([] : List UInt8) = []) _ rfl)
        rwa [List.append_nil] at hrequest
      · exact henqueue

/-- The callback does not go on connecting when C0 and C1 have been accepted. -/
theorem connecting_onWritable
    (h : c.connecting = false ∨ written = .ok c.handshakeData.length) :
    (c.onWritable written).1.connecting = false := by
  unfold EventClient.onWritable
  cases hconnecting : c.connecting with
  | true =>
      obtain rfl := h.resolve_left (by simp [hconnecting])
      simp only [if_true]
      rfl
  | false =>
      simp only [Bool.false_eq_true, if_false]
      cases written with
      | ok n => exact (c.keepsStage_handleWritable n).connecting.trans hconnecting
      | error f =>
          unfold EventClient.handleWritable
          dsimp only
          split
          · exact (c.keepsStage_takeOutgoing.trans (keepsStage_modify _ _)).connecting.trans hconnecting
          · rfl

theorem Streams.callback (h : c.Streams chunks sent) (hsound : c.Sound) (hr : c.Receiving)
    {mask : EpollEvents} {o : SocketOutcome} (hwhole : c.WritesWhole (.events mask o))
    (hcall : c.perform policy (.events mask o) = .ok (c', out)) :
    c'.Streams chunks (sent ++ c.wire (.events mask o)) := by
  obtain ⟨hsome, hcall⟩ | ⟨hsome, rfl, -⟩ := perform_events hcall
  · have hinterest : c.interest ≠ none := Option.isSome_iff_ne_none.1 hsome
    obtain ⟨hopen, hsession⟩ := hsound.registered hinterest
    obtain ⟨hhello, hwait, hanswer⟩ := hwhole hinterest
    obtain ⟨h₁, c₂, out₂, -, hread, -, rfl, -⟩ := hsound.onEvents hcall
    simp only [wire, hsome, if_true]
    rw [hread]
    set r₁ := if mask.epollOut then c.onWritable o.written else (c, []) with hr₁
    have hstreams₁ : r₁.1.Streams chunks (sent ++ wireOf o.written r₁.2) := by
      rw [hr₁]
      split
      · rename_i hout
        exact h.onWritable hopen (hhello hout) (hwait hout)
      · simpa using h
    have hkeeps : c.KeepsStream r₁.1 := by
      rw [hr₁]
      split
      · exact c.keepsStream_onWritable _
      · exact .refl c
    have hstreams₂ : c₂.Streams chunks
        (sent ++ (wireOf o.written r₁.2 ++ wireOf o.readiness.written out₂)) := by
      rw [← List.append_assoc]
      cases hin : mask.epollIn with
      | false =>
          rw [hin] at hread
          obtain ⟨rfl, rfl⟩ := Prod.mk.inj (Except.ok.inj hread)
          simpa using hstreams₁
      | true =>
          rw [hin] at hread
          have hsession₁ : r₁.1.hasSession = true := by
            rw [hr₁]
            split
            · exact (c.hasSession_onWritable _).trans hsession
            · exact hsession
          refine hstreams₁.handleReadable h₁ (hr.of_keeps hkeeps) hsession₁ ?_ hread
          intro hopen₁ hdata hcomplete
          have hread' : c.readOf (.events mask o) = o.readiness.bytes := by
            simp only [readOf, hsome, hin, ← hr₁, hopen₁, Bool.and_self, if_true]
          rw [hkeeps.handshake, hkeeps.readBuffer] at hcomplete
          rw [hread'] at hanswer
          obtain ⟨hwritten, hfull⟩ := hanswer hdata hcomplete
          refine ⟨?_, hfull⟩
          rw [hr₁]
          split
          · exact connecting_onWritable (hwritten.imp_right And.right)
          · rename_i hout
            exact hwritten.resolve_right fun hboth => hout hboth.1
    have hlast : (if mask.epollErr || mask.epollHup then c₂.cleanup else (c₂, [])).1.Streams chunks
        (sent ++ (wireOf o.written r₁.2 ++ wireOf o.readiness.written out₂)) := by
      split
      · exact hstreams₂.cleanup
      · exact hstreams₂
    exact hlast
  · rw [wire, if_neg (by simp [hsome]), List.append_nil]
    exact h

/-- **One step.** -/
theorem Streams.perform (h : c.Streams chunks sent) (hsound : c.Sound) (hr : c.Receiving)
    (hconnect : ∀ o, action ≠ .connect o) (hwhole : c.WritesWhole action)
    (hcall : c.perform policy action = .ok (c', out)) :
    ∃ more : List (List UInt8), (action.encoding 128).toList = more.map .ok ∧
      c'.Streams (chunks ++ more.flatten) (sent ++ c.wire action) := by
  have hquiet (hnone : action.encoding 128 = none)
      (hstreams : c'.Streams chunks (sent ++ c.wire action)) :
      ∃ more : List (List UInt8), (action.encoding 128).toList = more.map .ok ∧
        c'.Streams (chunks ++ more.flatten) (sent ++ c.wire action) := by
    refine ⟨[], by rw [hnone]; rfl, ?_⟩
    rwa [List.flatten_nil, List.append_nil]
  cases action with
  | connect o => exact absurd rfl (hconnect o)
  | disconnect =>
      have hnone : c.wire .disconnect = [] := rfl
      refine hquiet rfl ?_
      rw [hnone, List.append_nil]
      obtain ⟨rfl, -⟩ | ⟨rfl, -⟩ := perform_disconnect hcall
      · exact h.cleanup
      · exact h
  | sendMessage msg =>
      obtain ⟨bytes, hencode, hstreams⟩ := h.send hsound rfl hcall
      have hnone : c.wire (.sendMessage msg) = [] := rfl
      rw [hnone, List.append_nil]
      refine ⟨[bytes], congrArg (fun encoded => [encoded]) hencode, ?_⟩
      rwa [List.flatten_singleton]
  | sendCommand cmd csid =>
      obtain ⟨bytes, hencode, hstreams⟩ := h.send hsound rfl hcall
      have hnone : c.wire (.sendCommand cmd csid) = [] := rfl
      rw [hnone, List.append_nil]
      refine ⟨[bytes], congrArg (fun encoded => [encoded]) hencode, ?_⟩
      rwa [List.flatten_singleton]
  | flush written =>
      obtain ⟨rfl, -⟩ := Prod.mk.inj (Except.ok.inj hcall)
      exact hquiet rfl (h.flush hwhole)
  | events mask o => exact hquiet rfl (h.callback hsound hr hwhole hcall)

/-! ### Runs -/

/-- **The server gets C0, C1, C2 and the chunks, in this order, if no step cuts the handshake**: however
the steps follow one another, and whatever the socket accepts of the chunks.  The run is behind the first
`connect` of a client, or behind one that finds it idle with nothing left to write.  (A later one is to get
past `set_nonblocking`: otherwise the old session is left with a new socket.) -/
theorem handshake_bytes {c₀ : EventClient} (hidle : c₀.Idle) (hwrite : c₀.writeBuffer = [])
    {o : ConnectOutcome} (hset : o.setNonblocking = true ∨ c₀ = new policy)
    {trace : List (Moment EventClient ClientAction LoopOutput)}
    (hrun : Run (machine policy) (c₀.connect policy o) trace c)
    (hconnect : ∀ m ∈ trace, ∀ o, m.input ≠ .connect o)
    (hwhole : ∀ m ∈ trace, m.state.WritesWhole m.input) :
    ∃ encodings : List (List UInt8), sentEncodings 128 trace = encodings.map .ok ∧
      serverBytes trace <+: c.expected encodings.flatten := by
  have hsound : (c₀.connect policy o).Sound := hidle.sound.connect o
  obtain ⟨hreceiving, -⟩ := hidle.receiving policy o
  have hstart : (c₀.connect policy o).Streams [] [] := by
    rcases hset with hset | rfl
    · exact .connect_again hwrite hset
    · exact .connect_new policy o
  have hinv : c.Receiving ∧ ∃ encodings : List (List UInt8),
      sentEncodings 128 trace = encodings.map .ok ∧
        c.Streams encodings.flatten (serverBytes trace) := by
    refine hrun.invariant
      (P := fun m => (∀ o, m.input ≠ .connect o) ∧ m.state.WritesWhole m.input)
      (I := fun trace c => c.Receiving ∧ ∃ encodings : List (List UInt8),
        sentEncodings 128 trace = encodings.map .ok ∧
          c.Streams encodings.flatten (serverBytes trace))
      (fun m hm => ⟨hconnect m hm, hwhole m hm⟩) ⟨hreceiving, [], rfl, hstart⟩ ?_
    rintro trace c action out c' hrun ⟨hr, encodings, hsent, hstreams⟩ ⟨hno, hwrites⟩ hstep
    have h := hsound.run hrun
    obtain ⟨more, hmore, hnext⟩ := hstreams.perform h hr hno hwrites hstep
    refine ⟨(hr.perform h hno hstep).2, encodings ++ more, ?_, ?_⟩
    · rw [List.map_append, ← hsent, ← hmore]
      simp only [sentEncodings, Machine.inputs_snoc, List.filterMap_append]
      cases haction : action.encoding 128 with
      | none => rw [List.filterMap_cons_none haction, List.filterMap_nil, Option.toList_none]
      | some encoded => rw [List.filterMap_cons_some haction, List.filterMap_nil, Option.toList_some]
    · rw [serverBytes_snoc, List.flatten_append]
      exact hnext
  obtain ⟨-, encodings, hsent, hstreams⟩ := hinv
  exact ⟨encodings, hsent, hstreams.initial⟩

/-- The event that makes the client write, and how much the socket accepts. -/
def writing (n : ℕ) : ClientAction := .events ⟨false, true, false, false⟩ ⟨.ok n, .ok [], .ok 0⟩

theorem length_hello (random : ℕ → UInt8) : (waiting random).handshakeData.length = 1537 := by
  change ([3] ++ List.replicate 4 0 ++ List.replicate 4 0 ++
    (List.range 1528).map fun i => random (9 + i)).length = 1537
  simp only [List.length_append, List.length_replicate, List.length_map, List.length_range,
    List.length_singleton]

theorem perform_writing_short (random : ℕ → UInt8) {n : ℕ} (hshort : n < 1537) :
    (waiting random).perform policy (writing n) =
      .ok (waiting random, [.did (.write (waiting random).handshakeData)]) := by
  have hconnecting : (waiting random).connecting = true := rfl
  have hne : n ≠ (waiting random).handshakeData.length := by
    rw [length_hello]
    omega
  rw [writing, perform_write policy rfl]
  simp only [EventClient.onWritable, hconnecting, if_true, if_neg hne]

theorem perform_writing_whole (random : ℕ → UInt8) :
    (waiting random).perform policy (writing 1537) =
      .ok ({ waiting random with connecting := false }.modify ⟨true, false⟩,
        [.did (.write (waiting random).handshakeData)]) := by
  have hconnecting : (waiting random).connecting = true := rfl
  rw [writing, perform_write policy rfl]
  simp only [EventClient.onWritable, hconnecting, if_true, length_hello]

theorem wire_writing (random : ℕ → UInt8) (n : ℕ) :
    (waiting random).wire (writing n) = (waiting random).handshakeData.take n := by
  have hsome : (waiting random).interest.isSome = true := rfl
  have hconnecting : (waiting random).connecting = true := rfl
  have hout : ((waiting random).onWritable (.ok n)).2 =
      [.did (.write (waiting random).handshakeData)] := by
    unfold EventClient.onWritable
    rw [if_pos hconnecting]
    dsimp only
    split <;> rfl
  simp only [wire, writing, hsome, if_true, hout, Bool.false_eq_true, if_false]
  simp [wireOf, acceptedOf]

/-- A server whose socket takes nothing at first, and then C0 and C1 whole, and C2 when it has
answered. -/
theorem handshake_bytes_answered :
    ∃ trace c, Run (machine .exact) (waiting fun _ => 0) trace c ∧
      Machine.inputs trace = [writing 0, writing 1537, reading (3 :: List.replicate 3072 0)] ∧
      ∃ encodings : List (List UInt8), sentEncodings 128 trace = encodings.map .ok ∧
        serverBytes trace <+: c.expected encodings.flatten := by
  have hwaiting : (waiting fun _ => 0).Sound := (Sound.new .exact).connect _
  have hfirst := @perform_writing_short .exact (fun _ => 0) 0 (by decide)
  have hsecond := @perform_writing_whole .exact (fun _ => 0)
  set c₂ := { waiting fun _ => 0 with connecting := false }.modify ⟨true, false⟩ with hc₂
  have hrun₂ : Run (machine .exact) (waiting fun _ => 0) _ c₂ := .snoc (.snoc .nil hfirst) hsecond
  obtain ⟨c₃, out, hthird⟩ := (hwaiting.run hrun₂).perform_of_single .exact
    (single_reading (3 :: List.replicate 3072 0))
  refine ⟨_, c₃, .snoc hrun₂ hthird, rfl,
    handshake_bytes (.new .exact) rfl (.inl rfl) (.snoc hrun₂ hthird) ?_ ?_⟩
  · rintro m hm o
    fin_cases hm <;> exact fun h => by cases h
  · have hnone (n : ℕ) : (waiting fun _ => 0).readOf (writing n) = [] := rfl
    rintro m hm
    fin_cases hm
    · refine fun _ => ⟨fun _ _ n hn => .inl ?_, fun _ hnot => ?_, fun hread => ?_⟩
      · exact (Except.ok.inj hn).symm
      · exact absurd hnot (by decide)
      · exact absurd (hnone 0) hread
    · refine fun _ => ⟨fun _ _ n hn => .inr ?_, fun _ hnot => ?_, fun hread => ?_⟩
      · rw [length_hello]
        exact (Except.ok.inj hn).symm
      · exact absurd hnot (by decide)
      · exact absurd (hnone 1537) hread
    · refine fun _ => ⟨fun hout => ?_, fun hout => ?_, fun _ _ => ⟨.inl rfl, fun n hn => ?_⟩⟩
      · exact absurd hout (by decide)
      · exact absurd hout (by decide)
      · exact (Except.ok.inj hn).le

/-- C0 and C1, of which one byte has been accepted, come again from the first byte on. -/
theorem not_handshake_bytes :
    ∃ trace c, Run (machine .exact) (waiting fun _ => 0) trace c ∧
      Machine.inputs trace = [writing 1, writing 1537] ∧
      ¬ ∃ encodings : List (List UInt8), sentEncodings 128 trace = encodings.map .ok ∧
        serverBytes trace <+: c.expected encodings.flatten := by
  have hfirst := @perform_writing_short .exact (fun _ => 0) 1 (by decide)
  have hsecond := @perform_writing_whole .exact (fun _ => 0)
  refine ⟨_, _, .snoc (.snoc .nil hfirst) hsecond, rfl, ?_⟩
  rintro ⟨encodings, hsent, hprefix⟩
  have hle := hprefix.length_le
  have hbytes : (serverBytes ([] ++ [⟨waiting fun _ => 0, writing 1,
      [LoopOutput.did (.write (waiting fun _ => 0).handshakeData)]⟩] ++
      [⟨waiting fun _ => 0, writing 1537,
        [LoopOutput.did (.write (waiting fun _ => 0).handshakeData)]⟩])).length = 1538 := by
    rw [serverBytes_snoc, serverBytes_snoc, wire_writing, wire_writing, List.length_append,
      List.length_append, List.length_take, List.length_take, length_hello]
    rfl
  have hexpected : (expected ({ waiting fun _ => 0 with connecting := false }.modify ⟨true, false⟩)
      encodings.flatten).length = 1537 := by
    change ((waiting fun _ => 0).handshakeData ++ []).length = 1537
    rw [List.append_nil, length_hello]
  rw [hbytes, hexpected] at hle
  omega

end EventClient

end Rtmp
