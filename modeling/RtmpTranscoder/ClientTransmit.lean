/-
**The client's transmit queue.**

What a client sends is queued in the session's buffer.  Two writers take it out: `flush`, whenever
somebody asks for it, and `handle_writable`, whenever the loop reports that the socket takes more.
Both move the session's bytes behind those in `write_buffer_`, hand this buffer to the socket, and
keep what the socket has not accepted.  So the bytes that have been accepted, those in
`write_buffer_` and those in the session's buffer are, in this order, what has been sent.

That nothing is left stranded is a matter of the registration.  Whoever puts something into the queue
asks for `EPOLLOUT`, and only `handle_writable` gives it up, when the queue is empty.  The callback
gives it up without a look at the queue when it has written the handshake; therefore the
second half of what is proved here is about a queue for which `EPOLLOUT` was registered at that
time, as it is if nothing had been sent.

Main definitions:

* `Rtmp.EventClient.Transmits`, `Rtmp.EventClient.Finished` — the handshake is over;
* `Rtmp.EventClient.Armed` — what is queued will be written;
* `Rtmp.EventClient.Moves` — no byte of the queue is lost, repeated or reordered, and what is queued
  stays registered;
* `Rtmp.sentEncodings` — the chunks that a run has sent, in the order of the calls.

Main results:

* `Rtmp.EventClient.moves_flush`, `Rtmp.EventClient.moves_handleWritable` — the two writers;
* `Rtmp.EventClient.Transmits.run` — what is accepted and what is queued is what was sent;
* `Rtmp.EventClient.transmit_queue` — **nothing is lost, repeated, reordered or left stranded from the
  end of the handshake on**.
-/

import RtmpTranscoder.ClientLoop

set_option relaxedAutoImplicit false
set_option autoImplicit false

namespace Rtmp

/-- The chunks that a run has sent, in the order of the calls. -/
def sentEncodings (chunkSize : UInt32)
    (trace : List (Machine.Moment EventClient ClientAction LoopOutput)) :
    List (Except Failure (List UInt8)) :=
  (Machine.inputs trace).filterMap (ClientAction.encoding chunkSize)

namespace EventClient

variable {c c' c'' : EventClient} {policy : GrowthPolicy} {out out' : List LoopOutput}

/-- The handshake is behind the client: it has a session, the callback does not write the handshake
any more, and a socket that is open is registered. -/
structure Transmits (c : EventClient) : Prop where
  hasSession : c.hasSession = true
  connecting : c.connecting = false
  registered : c.socketOpen = true → c.interest ≠ none

/-- What is queued will be written: the loop is to report when the socket takes more. -/
def Armed (c : EventClient) : Prop :=
  c.socketOpen = true → c.queue ≠ [] → ∃ i, c.interest = some i ∧ i.epollOut = true

/-- No byte of the queue is lost, repeated or reordered, and what is queued stays registered. -/
structure Moves (c : EventClient) (out : List LoopOutput) (c' : EventClient) : Prop where
  queue : acceptedBytes out ++ c'.queue = c.queue
  transmits : c.Transmits → c'.Transmits
  armed : c.Transmits → c.Armed → c'.Armed

theorem Moves.refl (c : EventClient) : c.Moves [] c := ⟨rfl, id, fun _ => id⟩

theorem Moves.trans (h : c.Moves out c') (h' : c'.Moves out' c'') : c.Moves (out ++ out') c'' where
  queue := by rw [acceptedBytes_append, List.append_assoc, h'.queue, h.queue]
  transmits ht := h'.transmits (h.transmits ht)
  armed ht ha := h'.armed (h.transmits ht) (h.armed ht ha)

/-! ### The writers -/

/-- The registration stays as it is, and what is queued is the end of what was. -/
theorem Armed.of_eq (h : c.Armed) (hsocket : c'.socketOpen = c.socketOpen)
    (hinterest : c'.interest = c.interest) {data : List UInt8} (hqueue : data ++ c'.queue = c.queue) :
    c'.Armed := by
  intro hopen hne
  rw [hinterest]
  refine h (hsocket ▸ hopen) fun hempty => hne ?_
  rw [hempty] at hqueue
  exact (List.append_eq_nil_iff.1 hqueue).2

theorem moves_takeOutgoing (c : EventClient) : c.Moves [] c.takeOutgoing := by
  unfold takeOutgoing
  split
  · have hqueue : [] ++ EventClient.queue
        { c with
          session := c.session.getOutgoingData.1
          writeBuffer := c.writeBuffer ++ c.session.getOutgoingData.2 } = c.queue := by
      simp [EventClient.queue, Session.getOutgoingData]
    exact ⟨hqueue, fun ht => ⟨ht.hasSession, ht.connecting, ht.registered⟩, fun _ ha =>
      ha.of_eq rfl rfl hqueue⟩
  · exact .refl c

theorem readable_takeOutgoing (h : c.takeOutgoing.hasSession = true) :
    c.takeOutgoing.session.writeBuffer.readable = [] := by
  unfold takeOutgoing at h ⊢
  split
  · exact Buffer.readable_clear _
  · rename_i hempty
    rw [if_neg hempty] at h
    have hread : c.session.writeBuffer.readPos = c.session.writeBuffer.writePos := by
      simpa [h, Session.hasOutgoingData, Buffer.empty] using hempty
    simp [Buffer.readable, hread]

/-- The writer hands over the write buffer, and keeps what is not accepted. -/
theorem moves_accepted (c : EventClient) (n : ℕ) :
    c.Moves [.accepted (c.writeBuffer.take n)] { c with writeBuffer := c.writeBuffer.drop n } := by
  have hqueue : c.writeBuffer.take n ++
      EventClient.queue { c with writeBuffer := c.writeBuffer.drop n } = c.queue := by
    simp [EventClient.queue, ← List.append_assoc]
  refine ⟨?_, fun ht => ⟨ht.hasSession, ht.connecting, ht.registered⟩, fun _ ha =>
    ha.of_eq rfl rfl hqueue⟩
  simpa [acceptedBytes] using hqueue

theorem moves_accepted_all (c : EventClient) :
    c.Moves [.accepted c.writeBuffer] { c with writeBuffer := [] } := by
  have h := c.moves_accepted c.writeBuffer.length
  rwa [List.take_length, List.drop_length] at h

/-- To ask for `EPOLLOUT` is always right. -/
theorem moves_request (c : EventClient) : c.Moves [] (c.modify ⟨true, true⟩) := by
  have hinterest : c.interest ≠ none → (c.modify ⟨true, true⟩).interest = some ⟨true, true⟩ := by
    intro hi
    obtain ⟨i, hi⟩ := Option.ne_none_iff_exists'.1 hi
    simp [modify, hi]
  refine ⟨rfl, fun ht => ⟨ht.hasSession, ht.connecting, fun hopen => ?_⟩, fun ht _ hopen _ => ?_⟩
  · rw [hinterest (ht.registered hopen)]
    exact Option.some_ne_none _
  · exact ⟨⟨true, true⟩, hinterest (ht.registered hopen), rfl⟩

/-- To give `EPOLLOUT` up is right when the queue is empty. -/
theorem moves_release (h : c.Transmits → c.queue = []) : c.Moves [] (c.modify ⟨true, false⟩) := by
  refine ⟨rfl, fun ht => ⟨ht.hasSession, ht.connecting, fun hopen => ?_⟩, fun ht _ _ hne => ?_⟩
  · obtain ⟨i, hi⟩ := Option.ne_none_iff_exists'.1 (ht.registered hopen)
    simp [modify, hi]
  · exact absurd (h ht) hne

theorem moves_cleanup (c : EventClient) : c.Moves c.cleanup.2 c.cleanup.1 where
  queue := rfl
  transmits ht := ⟨ht.hasSession, rfl, fun hopen => absurd hopen Bool.false_ne_true⟩
  armed _ _ hopen := absurd hopen Bool.false_ne_true

theorem moves_flush (c : EventClient) (written : Except Failure ℕ) :
    c.Moves (c.flush written).2 (c.flush written).1 := by
  unfold flush
  split
  · exact .refl c
  · dsimp only
    split
    · exact c.moves_takeOutgoing
    · split
      · exact c.moves_takeOutgoing
      · split
        · exact (c.moves_takeOutgoing.trans (c.takeOutgoing.moves_accepted _)).trans
            (moves_request _)
        · exact c.moves_takeOutgoing.trans c.takeOutgoing.moves_accepted_all

theorem moves_handleWritable (c : EventClient) (written : Except Failure ℕ) :
    c.Moves (c.handleWritable written).2 (c.handleWritable written).1 := by
  unfold handleWritable
  dsimp only
  split
  · rename_i hempty
    refine c.moves_takeOutgoing.trans (moves_release fun ht => ?_)
    rw [EventClient.queue, List.isEmpty_iff.1 hempty, readable_takeOutgoing ht.hasSession]
    rfl
  · split
    · exact c.moves_takeOutgoing.trans c.takeOutgoing.moves_cleanup
    · split
      · exact c.moves_takeOutgoing.trans (c.takeOutgoing.moves_accepted _)
      · refine (c.moves_takeOutgoing.trans c.takeOutgoing.moves_accepted_all).trans
          (moves_release fun ht => ?_)
        exact readable_takeOutgoing ht.hasSession

theorem moves_onWritable (c : EventClient) (written : Except Failure ℕ) :
    c.Moves (c.onWritable written).2 (c.onWritable written).1 := by
  unfold onWritable
  split
  · rename_i hconnecting
    have hnot : ¬ c.Transmits := fun ht => by simp [ht.connecting] at hconnecting
    split
    · split
      · exact ⟨rfl, fun ht => absurd ht hnot, fun ht => absurd ht hnot⟩
      · exact ⟨rfl, id, fun _ => id⟩
    · exact ⟨rfl, id, fun _ => id⟩
  · exact c.moves_handleWritable written

/-! ### Every action -/

theorem Sound.moves_handleReadable (h : c.Sound) {r : Readiness}
    (hcall : c.handleReadable r = .ok (c', out)) : c.Moves out c' := by
  obtain ⟨c'', out', hcall', -, hkeeps, hout, hends⟩ := h.handleReadable r
  obtain ⟨rfl, rfl⟩ := Prod.mk.inj (Except.ok.inj (hcall.symm.trans hcall'))
  have hqueue : acceptedBytes out ++ c'.queue = c.queue := by
    rw [hout, List.nil_append, EventClient.queue, EventClient.queue, hkeeps.writeBuffer,
      hkeeps.session.writeBuffer]
  rcases hends with ⟨-, hended, -⟩ | ⟨-, hopen, hconnecting, hinterest, -⟩
  · have hclosed : c'.socketOpen ≠ true := by simp [hended.client.socketOpen]
    exact ⟨hqueue, fun ht => ⟨hkeeps.hasSession.trans ht.hasSession, hended.client.connecting,
      fun hopen => absurd hopen hclosed⟩, fun _ _ hopen => absurd hopen hclosed⟩
  · refine ⟨hqueue, fun ht => ⟨hkeeps.hasSession.trans ht.hasSession,
      hconnecting.trans ht.connecting, fun ho => ?_⟩, fun _ ha => ha.of_eq hopen hinterest hqueue⟩
    rw [hinterest]
    exact ht.registered (hopen ▸ ho)

theorem Sound.moves_onEvents (h : c.Sound) {mask : EpollEvents} {o : SocketOutcome}
    (hcall : c.onEvents mask o = .ok (c', out)) : c.Moves out c' := by
  obtain ⟨h₁, c₂, out₂, -, hread, -, rfl, rfl⟩ := h.onEvents hcall
  set r₁ := if mask.epollOut then c.onWritable o.written else (c, []) with hr₁
  have hwrite : c.Moves r₁.2 r₁.1 := by
    rw [hr₁]
    split
    · exact c.moves_onWritable _
    · exact .refl c
  have hread' : r₁.1.Moves out₂ c₂ := by
    split at hread
    · exact h₁.moves_handleReadable hread
    · obtain ⟨rfl, rfl⟩ := Prod.mk.inj (Except.ok.inj hread)
      exact .refl _
  refine (hwrite.trans hread').trans ?_
  split
  · exact c₂.moves_cleanup
  · exact .refl c₂

theorem Sound.moves_perform (h : c.Sound) {action : ClientAction}
    (hconnect : ∀ o, action ≠ .connect o)
    (hsend : action.encoding c.session.outChunkSize = none)
    (hcall : c.perform policy action = .ok (c', out)) : c.Moves out c' := by
  cases action with
  | connect o => exact absurd rfl (hconnect o)
  | disconnect =>
      obtain ⟨rfl, rfl⟩ | ⟨rfl, rfl⟩ := perform_disconnect hcall
      · exact c.moves_cleanup
      · exact .refl c'
  | sendMessage msg => cases hsend
  | sendCommand cmd csid => cases hsend
  | flush written =>
      simp only [EventClient.perform] at hcall
      obtain ⟨rfl, rfl⟩ := Prod.mk.inj (Except.ok.inj hcall)
      exact c.moves_flush written
  | events mask o =>
      obtain ⟨-, hcall⟩ | ⟨-, rfl, rfl⟩ := perform_events hcall
      · exact h.moves_onEvents hcall
      · exact .refl c'

theorem Transmits.requestWrite (h : c.Transmits) :
    c.requestWrite.queue = c.queue ∧ c.requestWrite.Transmits ∧ c.requestWrite.Armed := by
  unfold EventClient.requestWrite
  split
  · refine ⟨rfl, c.moves_request.transmits h, fun hopen _ => ⟨⟨true, true⟩, ?_, rfl⟩⟩
    obtain ⟨i, hi⟩ := Option.ne_none_iff_exists'.1 (h.registered hopen)
    simp [modify, hi]
  · rename_i hnone
    refine ⟨rfl, h, fun hopen hne => absurd ?_ hne⟩
    simp only [hopen, Bool.true_and, Bool.or_eq_true, Bool.not_eq_true', not_or,
      Bool.not_eq_false, List.isEmpty_iff, Bool.not_eq_true] at hnone
    have hread : c.session.writeBuffer.readPos = c.session.writeBuffer.writePos := by
      simpa [Session.hasOutgoingData, Buffer.empty] using hnone.1
    simp [EventClient.queue, hnone.2, Buffer.readable, hread]

theorem Sound.perform_send_queue (h : c.Sound) (ht : c.Transmits) {action : ClientAction}
    {encoded : Except Failure (List UInt8)}
    (haction : action.encoding c.session.outChunkSize = some encoded)
    (hcall : c.perform policy action = .ok (c', out)) :
    ∃ bytes, encoded = .ok bytes ∧ acceptedBytes out ++ c'.queue = c.queue ++ bytes ∧
      c'.Transmits ∧ c'.Armed := by
  obtain ⟨bytes, rfl⟩ := h.exists_encoding haction
  rw [EventClient.perform_send haction, if_pos ht.hasSession] at hcall
  obtain ⟨rfl, rfl⟩ := Prod.mk.inj (Except.ok.inj hcall)
  have hqueue : (c.enqueue bytes).queue = c.queue ++ bytes := by
    simp only [EventClient.queue, EventClient.enqueue, h.plain.readable_append, List.append_assoc]
  have ht' : (c.enqueue bytes).Transmits := ⟨ht.hasSession, ht.connecting, ht.registered⟩
  obtain ⟨hsame, htransmits, harmed⟩ := ht'.requestWrite
  exact ⟨bytes, rfl, hsame.trans hqueue, htransmits, harmed⟩

/-! ### Runs -/

/-- **From the end of the handshake on, what has been accepted and what is queued is what was queued
and what has been sent since; and what was registered stays registered.** -/
theorem Transmits.run {trace : List (Machine.Moment EventClient ClientAction LoopOutput)}
    (ht : c.Transmits) (h : c.Sound) (hrun : Machine.Run (machine policy) c trace c')
    (hconnect : ∀ m ∈ trace, ∀ o, m.input ≠ .connect o) :
    ∃ encodings : List (List UInt8), sentEncodings 128 trace = encodings.map .ok ∧
      acceptedBytes (Machine.outputs trace) ++ c'.queue = c.queue ++ encodings.flatten ∧
      c'.Transmits ∧ (c.Armed → c'.Armed) := by
  refine hrun.invariant (P := fun m => ∀ o, m.input ≠ .connect o)
    (I := fun trace c' => ∃ encodings : List (List UInt8),
      sentEncodings 128 trace = encodings.map .ok ∧
      acceptedBytes (Machine.outputs trace) ++ c'.queue = c.queue ++ encodings.flatten ∧
      c'.Transmits ∧ (c.Armed → c'.Armed))
    hconnect ⟨[], rfl, by simp, ht, id⟩ ?_
  rintro trace c₁ action out c₂ hrun ⟨encodings, hsent, hqueue, ht₁, harmed⟩ hno hstep
  have h₁ := h.run hrun
  have hsize := h₁.outChunkSize
  rw [Machine.outputs_snoc, acceptedBytes_append]
  simp only [sentEncodings, Machine.inputs_snoc, List.filterMap_append] at hsent ⊢
  cases haction : action.encoding 128 with
  | none =>
      have hmoves := h₁.moves_perform hno (by rw [hsize]; exact haction) hstep
      refine ⟨encodings, ?_, ?_, hmoves.transmits ht₁, fun ha => hmoves.armed ht₁ (harmed ha)⟩
      · rw [hsent, List.filterMap_cons_none haction, List.filterMap_nil, List.append_nil]
      · rw [List.append_assoc, hmoves.queue, hqueue]
  | some encoded =>
      obtain ⟨bytes, rfl, hbytes, ht₂, ha₂⟩ :=
        h₁.perform_send_queue ht₁ (by rw [hsize]; exact haction) hstep
      refine ⟨encodings ++ [bytes], ?_, ?_, ht₂, fun _ => ha₂⟩
      · rw [hsent, List.filterMap_cons_some haction, List.filterMap_nil, List.map_append]
        rfl
      · rw [List.append_assoc, hbytes, ← List.append_assoc, hqueue]
        simp

/-- The handshake has finished: the client is connected, C0 and C1 are written, and the socket is
open and registered. -/
structure Finished (c : EventClient) : Prop where
  socketOpen : c.socketOpen = true
  connected : c.connected = true
  connecting : c.connecting = false
  registered : c.interest ≠ none

theorem Finished.transmits (hf : c.Finished) (h : c.Sound) : c.Transmits :=
  ⟨(h.registered hf.registered).2, hf.connecting, fun _ => hf.registered⟩

theorem queue_connect (h : c.queue = []) (o : ConnectOutcome) : (c.connect policy o).queue = [] := by
  obtain ⟨hwrite, -⟩ := List.append_eq_nil_iff.1 h
  unfold EventClient.connect
  dsimp only
  split
  · exact h
  · split
    · rw [EventClient.queue, hwrite]
      exact Buffer.readable_new policy
    · split
      · rw [EventClient.queue, hwrite]
        exact Buffer.readable_clear (Session.new policy).writeBuffer
      · rw [EventClient.queue, hwrite]
        exact Buffer.readable_clear (Session.new policy).writeBuffer

theorem Sound.run_unsent {trace : List (Machine.Moment EventClient ClientAction LoopOutput)}
    (h : c.Sound) (hempty : c.queue = []) (hrun : Machine.Run (machine policy) c trace c')
    (hsent : sentEncodings 128 trace = []) : c'.queue = [] := by
  have hno : ∀ m ∈ trace, m.input.encoding 128 = none := by
    simpa [sentEncodings, Machine.inputs, List.filterMap_eq_nil_iff] using hsent
  refine hrun.invariant (P := fun m => m.input.encoding 128 = none) (I := fun _ c => c.queue = [])
    hno hempty ?_
  intro trace c₁ action out c₂ hrun hqueue haction hstep
  have h₁ := h.run hrun
  by_cases hconnect : ∃ o, action = .connect o
  · obtain ⟨o, rfl⟩ := hconnect
    obtain ⟨rfl, rfl⟩ := Prod.mk.inj (Except.ok.inj hstep)
    exact queue_connect hqueue o
  · have hmoves := h₁.moves_perform (fun o ho => hconnect ⟨o, ho⟩)
      (by rw [h₁.outChunkSize]; exact haction) hstep
    exact (List.append_eq_nil_iff.1 (hmoves.queue.trans hqueue)).2

/-- **Nothing is lost, repeated or reordered between `send_message` and the socket, and nothing is
left stranded.**  From the end of the handshake until the client connects again, the bytes that have
been accepted, followed by those that are queued, are those that were queued at that time and the
chunks that have been sent since, in the order of the calls.  What was registered to be written stays
so; and if nothing was sent before the end of the handshake, then nothing was queued, and whatever is
queued is registered.  (What was sent before it is queued, but the callback that writes C0 and C1 takes
`EPOLLOUT` back: it waits for the next send or flush.) -/
theorem transmit_queue
    {before after : List (Machine.Moment EventClient ClientAction LoopOutput)}
    (hbefore : Machine.Run (machine policy) (new policy) before c) (hf : c.Finished)
    (hafter : Machine.Run (machine policy) c after c')
    (hconnect : ∀ m ∈ after, ∀ o, m.input ≠ .connect o) :
    ∃ encodings : List (List UInt8), sentEncodings 128 after = encodings.map .ok ∧
      acceptedBytes (Machine.outputs after) ++ c'.writeBuffer ++ c'.session.writeBuffer.readable =
        c.queue ++ encodings.flatten ∧
      (c.Armed → c'.Armed) ∧ (sentEncodings 128 before = [] → c.queue = [] ∧ c'.Armed) := by
  have h := (Sound.new policy).run hbefore
  obtain ⟨encodings, hsent, hqueue, -, harmed⟩ := (hf.transmits h).run h hafter hconnect
  refine ⟨encodings, hsent, ?_, harmed, fun hunsent => ?_⟩
  · rw [List.append_assoc]
    exact hqueue
  · have hempty := (Sound.new policy).run_unsent (Buffer.readable_new policy) hbefore hunsent
    exact ⟨hempty, harmed fun _ hne => absurd hempty hne⟩

/-- A client whose socket accepts the handshake, and whose peer answers it, gets to the end of the
handshake. -/
theorem exists_finished (policy : GrowthPolicy) (random : ℕ → UInt8) {answer : List UInt8}
    (hlen : Handshake.s0s1s2Size ≤ answer.length) (hversion : answer.head? = some 3) :
    ∃ trace c, Machine.Run (machine policy) (new policy) trace c ∧ c.Finished ∧
      sentEncodings 128 trace = [] := by
  set c₁ := (new policy).connect policy ⟨true, true, true, true, random⟩ with hc₁
  have hconnecting : c₁.connecting = true := rfl
  -- the socket is ready, and takes all of the handshake
  set c₂ := { c₁ with connecting := false }.modify ⟨true, false⟩ with hc₂
  have hwrite : c₁.perform policy (.events ⟨false, true, false, false⟩
      ⟨.ok c₁.handshakeData.length, .ok [], .ok 0⟩) = .ok (c₂, [.did (.write c₁.handshakeData)]) := by
    rw [perform_write policy rfl]
    simp only [onWritable, hconnecting, if_true, ← hc₂]
  -- the answer of the peer is there
  have hanswer : answer ≠ [] := by
    rintro rfl
    simp at hversion
  obtain ⟨handshake, -, hcall⟩ :=
    c₂.toClient.handleReadable_completes rfl hanswer ⟨rfl, hlen, hversion⟩ 0
  set c₃ : Client := { c₂.toClient with
    session := { c₂.session with handshake := handshake }
    readBuffer := (c₂.readBuffer ++ answer).drop Handshake.s0s1s2Size
    connected := true } with hc₃
  obtain ⟨-, hopen, hstill, -⟩ := c₃.processBufferedData_spec
  have hopen₃ : c₃.processBufferedData.1.socketOpen = true := hopen
  have hread : c₂.handleReadable ⟨.ok answer, .ok 0⟩ =
      .ok ({ c₂ with toClient := c₃.processBufferedData.1 },
        (.write (((c₂.readBuffer ++ answer).drop 1).take 1536) :: .connectedCallback ::
          c₃.processBufferedData.2).map .did) := by
    have hopen₂ : c₂.socketOpen = true := rfl
    rw [EventClient.handleReadable, if_pos hopen₂, hcall]
    simp only [← hc₃, hopen₃, Bool.not_true, Bool.and_false, Bool.false_eq_true, if_false]
  have hlast : c₂.perform policy (.events ⟨true, false, false, false⟩ ⟨.ok 0, .ok answer, .ok 0⟩) =
      .ok ({ c₂ with toClient := c₃.processBufferedData.1 },
        (.write (((c₂.readBuffer ++ answer).drop 1).take 1536) :: .connectedCallback ::
          c₃.processBufferedData.2).map .did) := perform_read rfl hread
  have hfirst : (new policy).perform policy (.connect ⟨true, true, true, true, random⟩) =
      .ok (c₁, []) := rfl
  refine ⟨_, _, .snoc (.snoc (.snoc .nil hfirst) hwrite) hlast, ?_, rfl⟩
  exact ⟨hopen₃, c₃.connected_processBufferedData, hstill, Option.some_ne_none _⟩

def sampleMessage : Message where
  typeId := MessageType.audio.code
  timestamp := 0
  streamId := 0
  payload := [1, 2, 3]

/-- A message is sent, and a flush gets rid of five of its bytes. -/
theorem transmit_queue_flush : ∃ (before after : List (Machine.Moment EventClient ClientAction
      LoopOutput)) (c c' : EventClient),
    Machine.Run (machine .exact) (new .exact) before c ∧ c.Finished ∧
      Machine.inputs after = [.sendMessage sampleMessage, .flush (.ok 5)] ∧
      ∃ encodings : List (List UInt8), sentEncodings 128 after = encodings.map .ok ∧
        acceptedBytes (Machine.outputs after) ++ c'.writeBuffer ++
          c'.session.writeBuffer.readable = encodings.flatten ∧ c'.Armed := by
  have hlen : Handshake.s0s1s2Size ≤ (3 :: List.replicate 3072 (0 : UInt8)).length := by
    rw [List.length_cons, List.length_replicate]
    decide
  obtain ⟨before, c, hbefore, hf, hunsent⟩ := exists_finished .exact (fun _ => 0) hlen rfl
  obtain ⟨after, c', hafter, hinputs⟩ := ((Sound.new .exact).run hbefore).exists_run .exact
    (show ∀ action ∈ [ClientAction.sendMessage sampleMessage, .flush (.ok 5)], action.Single by
      simp [ClientAction.Single])
  have hconnect : ∀ m ∈ after, ∀ o, m.input ≠ .connect o := by
    intro m hm o heq
    have hmem : ClientAction.connect o ∈ Machine.inputs after := List.mem_map.2 ⟨m, hm, heq⟩
    simp [hinputs] at hmem
  obtain ⟨encodings, hsent, hqueue, -, hlast⟩ := transmit_queue hbefore hf hafter hconnect
  obtain ⟨hempty, harmed⟩ := hlast hunsent
  refine ⟨before, after, c, c', hbefore, hf, hinputs, encodings, hsent, ?_, harmed⟩
  rw [hqueue, hempty, List.nil_append]

end EventClient

end Rtmp
