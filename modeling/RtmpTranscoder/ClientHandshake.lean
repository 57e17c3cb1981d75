/-
**The client's handshake, read by read.**

`Client::handle_readable` collects what it reads in `read_buffer_`, and shows the handshake all of it
after every read.  The handshake is completed by 3073 bytes that start with the version 3, however
they are cut into reads: C2 is made of the bytes behind the version, and what is behind the 3073 bytes
goes to the session.

A handshake that fails is another matter.  `process_server_handshake` says *error* both where there
are not enough bytes and where the version is wrong, and the client does not ask which of them it is:
it keeps the bytes, and waits for more.

Main definitions:

* `Rtmp.EventClient.KeepsStream`, `Rtmp.EventClient.Undisturbed` — what is not a read leaves the
  receive path alone;
* `Rtmp.EventClient.readOf`, `Rtmp.ClientAction.read` — the bytes that an action makes the client
  read;
* `Rtmp.EventClient.Idle` — a client on which `connect` is called;
* `Rtmp.HandshakeAt` — what is to happen at a read, given what has been received before;
* `Rtmp.EventClient.Bounded`, `Rtmp.EventClient.VersionOk` — a buffer that is not too long, and a read
  that does not leave a wrong version in it.

Main results:

* `Rtmp.EventClient.Receiving.perform` — **what an action does to the handshake and to the buffer**;
* `Rtmp.EventClient.handshake_bounded_iff` — **the buffer stays bounded exactly as long as no read
  leaves a wrong version in it**;
* `Rtmp.EventClient.handshake_segmentation` — **a server that answers with the version 3 is answered
  in the same way, however its bytes are cut**.
-/

import RtmpTranscoder.ClientTransmit

set_option relaxedAutoImplicit false
set_option autoImplicit false

namespace Rtmp

open Machine (Moment Run)

namespace EventClient

variable {c c' c'' : EventClient} {policy : GrowthPolicy} {out : List LoopOutput}
  {action : ClientAction}

/-! ### What is not a read -/

/-- What has been received stays as it is; the connection may end. -/
structure KeepsStream (c c' : EventClient) : Prop where
  readBuffer : c'.readBuffer = c.readBuffer
  handshake : c'.session.handshake = c.session.handshake
  handshakeData : c'.handshakeData = c.handshakeData
  connected : c'.connected = true → c.connected = true
  unregistered : c.interest = none → c'.interest = none

/-- The connection does not end either. -/
structure Undisturbed (c c' : EventClient) : Prop extends KeepsStream c c' where
  socketOpen : c'.socketOpen = c.socketOpen
  still : c'.connected = c.connected
  registered : c.interest ≠ none → c'.interest ≠ none

theorem KeepsStream.refl (c : EventClient) : c.KeepsStream c := ⟨rfl, rfl, rfl, id, id⟩

theorem KeepsStream.trans (h : c.KeepsStream c') (h' : c'.KeepsStream c'') : c.KeepsStream c'' where
  readBuffer := h'.readBuffer.trans h.readBuffer
  handshake := h'.handshake.trans h.handshake
  handshakeData := h'.handshakeData.trans h.handshakeData
  connected := h.connected ∘ h'.connected
  unregistered := h'.unregistered ∘ h.unregistered

theorem Undisturbed.refl (c : EventClient) : c.Undisturbed c := ⟨.refl c, rfl, rfl, id⟩

theorem Undisturbed.trans (h : c.Undisturbed c') (h' : c'.Undisturbed c'') : c.Undisturbed c'' where
  toKeepsStream := h.toKeepsStream.trans h'.toKeepsStream
  socketOpen := h'.socketOpen.trans h.socketOpen
  still := h'.still.trans h.still
  registered := h'.registered ∘ h.registered

theorem keepsStream_cleanup (c : EventClient) : c.KeepsStream c.cleanup.1 where
  readBuffer := rfl
  handshake := rfl
  handshakeData := rfl
  connected h := absurd h Bool.false_ne_true
  unregistered h := by
    simp only [cleanup, h, ite_self]

theorem undisturbed_modify (c : EventClient) (events : Interest) : c.Undisturbed (c.modify events) :=
  ⟨⟨rfl, rfl, rfl, id, fun h => by simp [modify, h]⟩, rfl, rfl, fun h hnone => h (by
    simpa [modify] using hnone)⟩

theorem undisturbed_takeOutgoing (c : EventClient) : c.Undisturbed c.takeOutgoing := by
  unfold takeOutgoing
  split
  · exact ⟨⟨rfl, rfl, rfl, id, id⟩, rfl, rfl, id⟩
  · exact .refl c

theorem undisturbed_setWriteBuffer (c : EventClient) (data : List UInt8) :
    c.Undisturbed { c with writeBuffer := data } := ⟨⟨rfl, rfl, rfl, id, id⟩, rfl, rfl, id⟩

theorem undisturbed_flush (c : EventClient) (written : Except Failure ℕ) :
    c.Undisturbed (c.flush written).1 := by
  unfold flush
  split
  · exact .refl c
  · have htake := c.undisturbed_takeOutgoing
    dsimp only
    split
    · exact htake
    · split
      · exact htake
      · split
        · exact (htake.trans (undisturbed_setWriteBuffer _ _)).trans (undisturbed_modify _ _)
        · exact htake.trans (undisturbed_setWriteBuffer _ _)

theorem undisturbed_handleWritable (c : EventClient) (n : ℕ) :
    c.Undisturbed (c.handleWritable (.ok n)).1 := by
  have htake := c.undisturbed_takeOutgoing
  unfold handleWritable
  dsimp only
  split
  · exact htake.trans (undisturbed_modify _ _)
  · split
    · exact htake.trans (undisturbed_setWriteBuffer _ _)
    · exact (htake.trans (undisturbed_setWriteBuffer _ _)).trans (undisturbed_modify _ _)

theorem keepsStream_handleWritable (c : EventClient) (written : Except Failure ℕ) :
    c.KeepsStream (c.handleWritable written).1 := by
  cases written with
  | ok n => exact (c.undisturbed_handleWritable n).toKeepsStream
  | error f =>
      have htake := c.undisturbed_takeOutgoing
      unfold handleWritable
      dsimp only
      split
      · exact (htake.trans (undisturbed_modify _ _)).toKeepsStream
      · exact htake.toKeepsStream.trans (keepsStream_cleanup _)

/-- While the client is connecting, C0 and C1 are written, and nothing else happens. -/
theorem undisturbed_connecting (hconnecting : c.connecting = true) (written : Except Failure ℕ) :
    c.Undisturbed (c.onWritable written).1 := by
  have hflag : c.Undisturbed { c with connecting := false } :=
    ⟨⟨rfl, rfl, rfl, id, id⟩, rfl, rfl, id⟩
  have hwritten := hflag.trans (undisturbed_modify _ ⟨true, false⟩)
  unfold onWritable
  rw [if_pos hconnecting]
  cases written with
  | error f => exact .refl c
  | ok n =>
      simp only
      split
      · exact hwritten
      · exact .refl c

theorem undisturbed_onWritable (c : EventClient) (n : ℕ) :
    c.Undisturbed (c.onWritable (.ok n)).1 := by
  by_cases hconnecting : c.connecting = true
  · exact undisturbed_connecting hconnecting _
  · unfold onWritable
    rw [if_neg hconnecting]
    exact c.undisturbed_handleWritable n

theorem keepsStream_onWritable (c : EventClient) (written : Except Failure ℕ) :
    c.KeepsStream (c.onWritable written).1 := by
  by_cases hconnecting : c.connecting = true
  · exact (undisturbed_connecting hconnecting _).toKeepsStream
  · unfold onWritable
    rw [if_neg hconnecting]
    exact c.keepsStream_handleWritable written

theorem undisturbed_enqueue (c : EventClient) (data : List UInt8) :
    c.Undisturbed (c.enqueue data).requestWrite := by
  have henqueue : c.Undisturbed (c.enqueue data) := ⟨⟨rfl, rfl, rfl, id, id⟩, rfl, rfl, id⟩
  rw [requestWrite]
  split
  · exact henqueue.trans (undisturbed_modify _ _)
  · exact henqueue

theorem undisturbed_send {encoded : Except Failure (List UInt8)}
    (haction : action.encoding c.session.outChunkSize = some encoded)
    (hcall : c.perform policy action = .ok (c', out)) : c.Undisturbed c' := by
  rw [perform_send haction] at hcall
  split at hcall
  · cases encoded with
    | error f => cases hcall
    | ok bytes =>
        obtain ⟨rfl, -⟩ := Prod.mk.inj (Except.ok.inj hcall)
        exact c.undisturbed_enqueue bytes
  · obtain ⟨rfl, -⟩ := Prod.mk.inj (Except.ok.inj hcall)
    exact .refl c

end EventClient

/-! ### Reads -/

/-- The bytes that are there to be read. -/
def Readiness.bytes (r : Readiness) : List UInt8 :=
  match r.read with
  | .ok data => data
  | .error _ => []

namespace Client

variable {c c' : Client} {events : List ClientEvent}

/-- The bytes `data` have been read: a handshake that was pending is completed by them, if they are the
rest of 3073 bytes that start with the version 3, and otherwise they are kept. -/
structure Receives (c : Client) (data : List UInt8) (c' : Client) : Prop where
  done : c.session.handshake.isDone = true → c'.session.handshake.isDone = true
  pending : c.session.handshake.isDone = false →
    (data ≠ [] ∧ c.session.handshake.ServerComplete (c.readBuffer ++ data) ∧
      c'.session.handshake.isDone = true) ∨
    (¬ (data ≠ [] ∧ c.session.handshake.ServerComplete (c.readBuffer ++ data)) ∧
      c'.session.handshake = c.session.handshake ∧ c'.readBuffer = c.readBuffer ++ data)

/-- A client whose handshake is not completed keeps the bytes, and says nothing. -/
theorem handleReadable_waits (hconnected : c.connected = false) {data : List UInt8}
    (hdata : data ≠ []) (hnot : ¬ c.session.handshake.ServerComplete (c.readBuffer ++ data))
    (written : Except Failure ℕ) :
    c.handleReadable ⟨.ok data, written⟩ = .ok ({ c with readBuffer := c.readBuffer ++ data }, []) := by
  have hlen : data.length ≠ 0 := fun h => hdata (List.eq_nil_of_length_eq_zero h)
  rcases c.session.handshake.processServerHandshake_cases (c.readBuffer ++ data) with
    ⟨hcomplete, -⟩ | ⟨-, text, herr⟩
  · exact absurd hcomplete hnot
  · simp only [handleReadable, hlen, if_false, hconnected, Bool.not_false, if_true, handleHandshake,
      herr]

theorem receives_nil (hbuffer : c'.readBuffer = c.readBuffer)
    (hhandshake : c'.session.handshake = c.session.handshake) : c.Receives [] c' where
  done h := by rw [hhandshake, h]
  pending _ := .inr ⟨fun h => h.1 rfl, hhandshake, by rw [hbuffer, List.append_nil]⟩

/-- The answer to a complete handshake, whether it can be written or not. -/
theorem isDone_handleReadable (hconnected : c.connected = false) {data : List UInt8}
    (hdata : data ≠ []) (hcomplete : c.session.handshake.ServerComplete (c.readBuffer ++ data))
    {written : Except Failure ℕ} (hcall : c.handleReadable ⟨.ok data, written⟩ = .ok (c', events)) :
    c'.session.handshake.isDone = true := by
  have hlen : data.length ≠ 0 := fun h => hdata (List.eq_nil_of_length_eq_zero h)
  have hs1 : (((c.readBuffer ++ data).drop 1).take 1536).length = 1536 := by
    have hlong := hcomplete.2.1
    rw [Handshake.s0s1s2Size] at hlong
    rw [List.length_take, List.length_drop]
    omega
  cases written with
  | ok n =>
      obtain ⟨handshake, hdone, hcall'⟩ := handleReadable_completes hconnected hdata hcomplete n
      obtain ⟨rfl, -⟩ := Prod.mk.inj (Except.ok.inj (hcall.symm.trans hcall'))
      unfold processBufferedData
      split
      · exact hdone
      · rw [Session.handshake_processInput hdone]
        exact hdone
  | error f =>
      rcases c.session.handshake.processServerHandshake_cases (c.readBuffer ++ data) with
        ⟨-, hok⟩ | ⟨hnot, -⟩
      · have hc2 : bytesAt (((c.readBuffer ++ data).drop 1).take 1536) 0 1536
            = .ok (((c.readBuffer ++ data).drop 1).take 1536) := by
          rw [bytesAt_of_le (by omega), List.drop_zero, List.take_of_length_le (by omega)]
        simp only [handleReadable, hlen, if_false, hconnected, Bool.not_false, if_true,
          handleHandshake, hok, Handshake.generateC2, hc2] at hcall
        obtain ⟨rfl, -⟩ := Prod.mk.inj (Except.ok.inj hcall)
        rfl
      · exact absurd hcomplete hnot

/-- **What a read does to the handshake and to the buffer.** -/
theorem receives_handleReadable {r : Readiness}
    (hdone : c.connected = true → c.session.handshake.isDone = true)
    (hcall : c.handleReadable r = .ok (c', events)) :
    c.Receives r.bytes c' ∧ (c'.connected = true → c'.session.handshake.isDone = true) := by
  obtain ⟨read, written⟩ := r
  cases read with
  | error f =>
      obtain ⟨rfl, -⟩ := Prod.mk.inj (Except.ok.inj hcall)
      exact ⟨receives_nil rfl rfl, fun h => absurd h Bool.false_ne_true⟩
  | ok data =>
      change c.Receives data c' ∧ _
      by_cases hdata : data = []
      · subst hdata
        obtain ⟨rfl, -⟩ := Prod.mk.inj (Except.ok.inj hcall)
        exact ⟨receives_nil rfl rfl, fun h => absurd h Bool.false_ne_true⟩
      cases hconnected : c.connected with
      | true =>
          have hsession := hdone hconnected
          obtain ⟨c'', events', hcall', hconnected', hsession', -⟩ :=
            handleReadable_connected hconnected hsession (r := ⟨.ok data, written⟩) rfl hdata
          obtain ⟨rfl, -⟩ := Prod.mk.inj (Except.ok.inj (hcall.symm.trans hcall'))
          have hdone' : c'.session.handshake.isDone = true := by
            rw [hsession', Session.handshake_processInput hsession]
            exact hsession
          exact ⟨⟨fun _ => hdone', fun h => by simp [hsession] at h⟩, fun _ => hdone'⟩
      | false =>
          by_cases hcomplete : c.session.handshake.ServerComplete (c.readBuffer ++ data)
          · have hdone' := isDone_handleReadable hconnected hdata hcomplete hcall
            exact ⟨⟨fun _ => hdone', fun _ => .inl ⟨hdata, hcomplete, hdone'⟩⟩, fun _ => hdone'⟩
          · rw [handleReadable_waits hconnected hdata hcomplete] at hcall
            obtain ⟨rfl, -⟩ := Prod.mk.inj (Except.ok.inj hcall)
            refine ⟨⟨id, fun _ => .inr ⟨fun h => hcomplete h.2, rfl, rfl⟩⟩, fun h => ?_⟩
            exact absurd (hconnected.symm.trans h) Bool.false_ne_true

end Client

namespace EventClient

variable {c c' c₁ c₂ : EventClient} {policy : GrowthPolicy} {out : List LoopOutput}
  {action : ClientAction} {data : List UInt8}

/-- The bytes that an action makes the client read. -/
def readOf (c : EventClient) : ClientAction → List UInt8
  | .events mask o =>
      if c.interest.isSome && mask.epollIn &&
          (if mask.epollOut then c.onWritable o.written else (c, [])).1.socketOpen then
        o.readiness.bytes
      else []
  | _ => []

/-- What holds of a client that has been connected once: it is connected only if its handshake is done,
and before that it has sent C0 and C1, if it is registered at all. -/
structure Receiving (c : EventClient) : Prop where
  connected : c.connected = true → c.session.handshake.isDone = true
  pending : c.session.handshake.isDone = false → c.interest ≠ none →
    c.session.handshake.state = .c0c1Sent

theorem Receiving.of_keeps (hr : c.Receiving) (h : c.KeepsStream c') : c'.Receiving where
  connected hconnected := by
    rw [h.handshake]
    exact hr.connected (h.connected hconnected)
  pending hdone hinterest := by
    rw [h.handshake] at hdone ⊢
    exact hr.pending hdone fun hnone => hinterest (h.unregistered hnone)

theorem receives_of_keeps (h : c.KeepsStream c₁) (hr : c₁.toClient.Receives data c₂.toClient)
    (h' : c₂.KeepsStream c') : c.toClient.Receives data c'.toClient where
  done hdone := by
    rw [h'.handshake]
    exact hr.done (by rwa [h.handshake])
  pending hdone := by
    rw [h'.handshake, h'.readBuffer]
    simpa only [h.handshake, h.readBuffer] using hr.pending (by rwa [h.handshake])

theorem Receiving.handleReadable (hr : c.Receiving) {r : Readiness}
    (hcall : c.handleReadable r = .ok (c', out)) :
    c.toClient.Receives (if c.socketOpen then r.bytes else []) c'.toClient ∧ c'.Receiving := by
  unfold EventClient.handleReadable at hcall
  dsimp only at hcall
  set r' : Readiness :=
    if c.socketOpen then r else { r with read := .error (.err "Bad file descriptor") } with hr'
  have hbytes : r'.bytes = if c.socketOpen then r.bytes else [] := by
    rw [hr']
    split <;> rfl
  cases hclient : c.toClient.handleReadable r' with
  | error f =>
      rw [hclient] at hcall
      cases hcall
  | ok q =>
      obtain ⟨client, events⟩ := q
      rw [hclient] at hcall
      obtain ⟨rfl, -⟩ := Prod.mk.inj (Except.ok.inj hcall)
      obtain ⟨hreceives, hconnected⟩ := Client.receives_handleReadable hr.connected hclient
      rw [hbytes] at hreceives
      refine ⟨hreceives, ⟨hconnected, fun hdone hinterest => ?_⟩⟩
      have hpending : c.session.handshake.isDone = false := by
        by_contra hnot
        rw [Bool.not_eq_false] at hnot
        exact absurd ((hreceives.done hnot).symm.trans hdone) (by decide)
      have hregistered : c.interest ≠ none := by
        intro hnone
        simp [hnone] at hinterest
      rcases hreceives.pending hpending with ⟨-, -, hdone'⟩ | ⟨-, hsame, -⟩
      · exact absurd (hdone'.symm.trans hdone) (by decide)
      · change client.session.handshake.state = .c0c1Sent
        rw [hsame]
        exact hr.pending hpending hregistered

/-- **What an action does to the handshake and to the buffer.** -/
theorem Receiving.perform (hr : c.Receiving) (h : c.Sound) (hconnect : ∀ o, action ≠ .connect o)
    (hcall : c.perform policy action = .ok (c', out)) :
    c.toClient.Receives (c.readOf action) c'.toClient ∧ c'.Receiving := by
  have hquiet (hread : c.readOf action = []) (hkeeps : c.KeepsStream c') :
      c.toClient.Receives (c.readOf action) c'.toClient ∧ c'.Receiving := by
    rw [hread]
    exact ⟨Client.receives_nil hkeeps.readBuffer hkeeps.handshake, hr.of_keeps hkeeps⟩
  cases action with
  | connect o => exact absurd rfl (hconnect o)
  | disconnect =>
      refine hquiet rfl ?_
      obtain ⟨rfl, -⟩ | ⟨rfl, -⟩ := perform_disconnect hcall
      · exact c.keepsStream_cleanup
      · exact .refl c'
  | sendMessage msg => exact hquiet rfl (undisturbed_send rfl hcall).toKeepsStream
  | sendCommand cmd csid => exact hquiet rfl (undisturbed_send rfl hcall).toKeepsStream
  | flush written =>
      obtain ⟨rfl, -⟩ := Prod.mk.inj (Except.ok.inj hcall)
      exact hquiet rfl (c.undisturbed_flush written).toKeepsStream
  | events mask o =>
      obtain ⟨hsome, hcall⟩ | ⟨hsome, rfl, -⟩ := perform_events hcall
      · obtain ⟨-, c₂, out₂, -, hread, -, rfl, -⟩ := h.onEvents hcall
        set r₁ := if mask.epollOut then c.onWritable o.written else (c, []) with hr₁
        have hwrite : c.KeepsStream r₁.1 := by
          rw [hr₁]
          split
          · exact c.keepsStream_onWritable _
          · exact .refl c
        have hfinal : c₂.KeepsStream
            (if mask.epollErr || mask.epollHup then c₂.cleanup else (c₂, [])).1 := by
          split
          · exact c₂.keepsStream_cleanup
          · exact .refl c₂
        cases hin : mask.epollIn with
        | false =>
            simp only [hin, Bool.false_eq_true, if_false] at hread
            obtain ⟨rfl, -⟩ := Prod.mk.inj (Except.ok.inj hread)
            refine hquiet ?_ (hwrite.trans hfinal)
            simp only [readOf, hin, Bool.and_false, Bool.false_and, Bool.false_eq_true, if_false]
        | true =>
            simp only [hin, if_true] at hread
            obtain ⟨hreceives, hr₂⟩ := (hr.of_keeps hwrite).handleReadable hread
            refine ⟨?_, hr₂.of_keeps hfinal⟩
            have hof : c.readOf (.events mask o) =
                if r₁.1.socketOpen then o.readiness.bytes else [] := by
              simp only [readOf, hsome, hin, Bool.true_and, hr₁]
            rw [hof]
            exact receives_of_keeps hwrite hreceives hfinal
      · refine hquiet ?_ (.refl c')
        simp only [readOf, hsome, Bool.false_and, Bool.false_eq_true, if_false]

/-! ### A handshake that fails -/

/-- As long as the handshake is not done, the client holds at most 3072 bytes. -/
def Bounded (c : EventClient) : Prop :=
  c.session.handshake.isDone = false → c.readBuffer.length ≤ 3072

/-- The action does not leave 3073 bytes with a wrong version in the buffer. -/
def VersionOk (c : EventClient) (action : ClientAction) : Prop :=
  c.session.handshake.isDone = false → 3073 ≤ (c.readBuffer ++ c.readOf action).length →
    (c.readBuffer ++ c.readOf action).head? = some 3

/-- A client on which `connect` is called: it is not connected, and nothing waits in its buffer.  It may
have been connected before. -/
structure Idle (c : EventClient) : Prop where
  sound : c.Sound
  connected : c.connected = false
  readBuffer : c.readBuffer = []

theorem Idle.new (policy : GrowthPolicy) : (EventClient.new policy).Idle := ⟨.new policy, rfl, rfl⟩

variable {c₀ : EventClient}

/-- `connect` leaves these alone. -/
theorem connect_keeps (c₀ : EventClient) (policy : GrowthPolicy) (o : ConnectOutcome) :
    (c₀.connect policy o).connected = c₀.connected ∧
      (c₀.connect policy o).readBuffer = c₀.readBuffer := by
  obtain ⟨socket, setNonblocking, connect, add, random⟩ := o
  cases socket <;> cases setNonblocking <;> cases connect <;> cases add <;> exact ⟨rfl, rfl⟩

/-- The client that `connect` leaves behind. -/
theorem Idle.receiving (h : c₀.Idle) (policy : GrowthPolicy) (o : ConnectOutcome) :
    (c₀.connect policy o).Receiving ∧ (c₀.connect policy o).Bounded := by
  obtain ⟨hconnected, hbuffer⟩ := c₀.connect_keeps policy o
  refine ⟨⟨fun htrue => ?_, fun _ hinterest => ?_⟩, fun _ => ?_⟩
  · rw [hconnected, h.connected] at htrue
    cases htrue
  · obtain ⟨socket, setNonblocking, connect, add, random⟩ := o
    cases socket <;> cases setNonblocking <;> cases connect <;> cases add <;>
      first | rfl | exact absurd rfl hinterest
  · rw [hbuffer, h.readBuffer]
    exact Nat.zero_le _

/-- **One action keeps the buffer bounded exactly if it does not leave a wrong version in it.** -/
theorem Receiving.bounded_iff (hr : c.Receiving) (h : c.Sound) (hconnect : ∀ o, action ≠ .connect o)
    (hcall : c.perform policy action = .ok (c', out)) (hbounded : c.Bounded) :
    c'.Bounded ↔ c.VersionOk action := by
  obtain ⟨hreceives, -⟩ := hr.perform h hconnect hcall
  cases hdone : c.session.handshake.isDone with
  | true =>
      have hdone' := hreceives.done hdone
      exact ⟨fun _ hnot => absurd (hdone.symm.trans hnot) (by decide),
        fun _ hnot => absurd (hdone'.symm.trans hnot) (by decide)⟩
  | false =>
      rcases hreceives.pending hdone with ⟨-, hcomplete, hdone'⟩ | ⟨hnot, hsame, hbuffer⟩
      · exact ⟨fun _ _ _ => hcomplete.2.2,
          fun _ hpending => absurd (hdone'.symm.trans hpending) (by decide)⟩
      · have hpending : c'.session.handshake.isDone = false := by rw [hsame, hdone]
        constructor
        · intro hbounded' _ hlong
          have hle := hbounded' hpending
          rw [hbuffer] at hle
          omega
        · intro hversion _
          rw [hbuffer]
          by_contra hlong
          have hlong' : 3073 ≤ (c.readBuffer ++ c.readOf action).length := by omega
          have hle := hbounded hdone
          have hread : c.readOf action ≠ [] := by
            intro hnil
            rw [hnil, List.append_nil] at hlong'
            omega
          -- something has been read, so the client is registered, and has sent C0 and C1
          have hinterest : c.interest ≠ none := by
            intro hnone
            refine hread ?_
            unfold readOf
            split
            · simp [hnone]
            · rfl
          exact hnot ⟨hread, hr.pending hdone hinterest, hlong', hversion hdone hlong'⟩

/-- **The buffer stays bounded exactly as long as no read leaves a wrong version in it.** -/
theorem handshake_bounded_iff (hidle : c₀.Idle) {o : ConnectOutcome}
    {trace : List (Moment EventClient ClientAction LoopOutput)}
    (hrun : Run (machine policy) (c₀.connect policy o) trace c)
    (hconnect : ∀ m ∈ trace, ∀ o, m.input ≠ .connect o) :
    (∀ m ∈ trace, m.state.Bounded) ∧ c.Bounded ↔ ∀ m ∈ trace, m.state.VersionOk m.input := by
  have hsound : (c₀.connect policy o).Sound := hidle.sound.connect o
  obtain ⟨hreceiving, hbounded⟩ := hidle.receiving policy o
  have hinv : c.Receiving ∧
      ((∀ m ∈ trace, m.state.Bounded) ∧ c.Bounded ↔ ∀ m ∈ trace, m.state.VersionOk m.input) := by
    refine hrun.invariant (P := fun m => ∀ o, m.input ≠ .connect o)
      (I := fun trace c => c.Receiving ∧
        ((∀ m ∈ trace, m.state.Bounded) ∧ c.Bounded ↔ ∀ m ∈ trace, m.state.VersionOk m.input))
      hconnect ⟨hreceiving, by simpa using hbounded⟩ ?_
    rintro trace c action out c' hrun ⟨hr, hiff⟩ hno hstep
    have h := hsound.run hrun
    refine ⟨(hr.perform h hno hstep).2, ?_⟩
    -- the state before the step is one of those that have been looked at
    have hall : (∀ m ∈ trace ++ [⟨c, action, out⟩], m.state.Bounded) ↔
        (∀ m ∈ trace, m.state.Bounded) ∧ c.Bounded := by
      simp [or_imp, forall_and]
    have hallOk : (∀ m ∈ trace ++ [⟨c, action, out⟩], m.state.VersionOk m.input) ↔
        (∀ m ∈ trace, m.state.VersionOk m.input) ∧ c.VersionOk action := by
      simp [or_imp, forall_and]
    rw [hall, hallOk, ← hiff]
    exact and_congr_right fun hbounded => hr.bounded_iff h hno hstep hbounded.2
  exact hinv.2

/-- A client whose C0 and C1 are still to be written. -/
def waiting (random : ℕ → UInt8) : EventClient :=
  (new .exact).connect .exact ⟨true, true, true, true, random⟩

/-- The event that makes the client read, and what it reads. -/
def reading (data : List UInt8) : ClientAction :=
  .events ⟨true, false, false, false⟩ ⟨.ok 0, .ok data, .ok 1536⟩

theorem single_reading (data : List UInt8) : (reading data).Single :=
  ⟨fun h => Bool.false_ne_true h.1, fun h => h.2.elim Bool.false_ne_true Bool.false_ne_true⟩

theorem perform_reading {data : List UInt8} (hopen : c.socketOpen = true) (hinterest : c.interest ≠ none)
    (hconnected : c.connected = false) (hdata : data ≠ [])
    (hnot : ¬ c.session.handshake.ServerComplete (c.readBuffer ++ data)) :
    c.perform policy (reading data) = .ok ({ c with readBuffer := c.readBuffer ++ data }, []) := by
  have hsome : c.interest.isSome = true := Option.isSome_iff_ne_none.2 hinterest
  have hread : c.handleReadable ⟨.ok data, .ok 1536⟩ =
      .ok ({ c with readBuffer := c.readBuffer ++ data }, []) := by
    rw [EventClient.handleReadable, if_pos hopen, Client.handleReadable_waits hconnected hdata hnot]
    simp only [hopen, Bool.not_true, Bool.and_false, Bool.false_eq_true, if_false, List.map_nil]
  exact perform_read hsome hread

/-- A server that answers with the version 3, and completes the handshake with its second read. -/
theorem handshake_bounded_iff_completed : ∃ trace c,
    Run (machine .exact) (waiting fun _ => 0) trace c ∧
      Machine.inputs trace = [reading (3 :: List.replicate 3071 7), reading [7, 9]] ∧
      c.session.handshake.isDone = true ∧ (∀ m ∈ trace, m.state.Bounded) ∧ c.Bounded := by
  have hidle : (new .exact).Idle := .new .exact
  set c₁ : EventClient := { waiting fun _ => 0 with readBuffer := 3 :: List.replicate 3071 7 } with hc₁
  have hshort : ¬ (waiting fun _ => 0).session.handshake.ServerComplete
      ([] ++ 3 :: List.replicate 3071 7) := by
    refine fun hcomplete => absurd hcomplete.2.1 ?_
    rw [List.nil_append, List.length_cons, List.length_replicate]
    exact not_le.2 (by decide)
  have hfirst : (waiting fun _ => 0).perform .exact (reading (3 :: List.replicate 3071 7)) =
      .ok (c₁, []) :=
    perform_reading rfl (Option.some_ne_none _) rfl (List.cons_ne_nil _ _) hshort
  have hbuffer : c₁.readBuffer = 3 :: List.replicate 3071 7 := rfl
  have hrun₁ : Run (machine .exact) (waiting fun _ => 0) _ c₁ := .snoc .nil hfirst
  have hsound : c₁.Sound := (hidle.sound.connect _).run hrun₁
  obtain ⟨c, out, hsecond⟩ := hsound.perform_of_single .exact (single_reading [7, 9])
  have hread : c₁.readOf (reading [7, 9]) = [7, 9] := rfl
  have hcomplete : c₁.session.handshake.ServerComplete (c₁.readBuffer ++ [7, 9]) := by
    refine ⟨rfl, ?_, by rw [hbuffer]; rfl⟩
    rw [hbuffer, List.length_append, List.length_cons, List.length_replicate]
    decide
  have hdone : c.session.handshake.isDone = true := by
    have hr : c₁.Receiving := ((hidle.receiving .exact _).1.perform (hidle.sound.connect _)
      (fun o h => by cases h) hfirst).2
    rcases (hr.perform hsound (fun o h => by cases h) hsecond).1.pending rfl with
      ⟨-, -, hdone⟩ | ⟨hnot, -⟩
    · exact hdone
    · rw [hread] at hnot
      exact absurd ⟨List.cons_ne_nil 7 [9], hcomplete⟩ hnot
  have hrun : Run (machine .exact) (waiting fun _ => 0) _ c := .snoc hrun₁ hsecond
  refine ⟨_, c, hrun, rfl, hdone, (handshake_bounded_iff hidle hrun ?_).2 ?_⟩
  · rintro m hm o
    fin_cases hm <;> exact fun h => by cases h
  · rintro m hm - -
    fin_cases hm <;> rfl

/-- A server that begins with another version: all of its bytes are kept, and the connection stays as it
is. -/
theorem not_handshake_bounded : ¬ ∀ (policy : GrowthPolicy) (o : ConnectOutcome)
    (trace : List (Moment EventClient ClientAction LoopOutput)) (c : EventClient),
    Run (machine policy) ((new policy).connect policy o) trace c →
      (∀ m ∈ trace, ∀ o, m.input ≠ .connect o) → (∀ m ∈ trace, m.state.Bounded) ∧ c.Bounded := by
  intro hall
  have hversion : ¬ (waiting fun _ => 0).session.handshake.ServerComplete (List.replicate 3073 0) :=
    fun h => absurd (Option.some.inj h.2.2) (by decide)
  have hcall := @perform_reading (waiting fun _ => 0) .exact (List.replicate 3073 0) rfl
    (Option.some_ne_none _) rfl (List.cons_ne_nil 0 (List.replicate 3072 0)) hversion
  have hbounded := hall _ _ _ _ (Run.nil.snoc hcall) ?_
  · have hle := hbounded.2 rfl
    rw [List.length_append, List.length_replicate] at hle
    omega
  · rintro m hm o
    obtain rfl := List.mem_singleton.1 hm
    exact fun h => by cases h

end EventClient

/-! ### A handshake that succeeds -/

/-- Every call of `connect` succeeds. -/
structure ConnectOutcome.Succeeds (o : ConnectOutcome) : Prop where
  socket : o.socket = true
  setNonblocking : o.setNonblocking = true
  connect : o.connect = true
  add : o.add = true

/-- Nobody disconnects, writes are successful, and reads give bytes. -/
def ClientAction.Smooth : ClientAction → Prop
  | .connect _ | .disconnect => False
  | .events mask o =>
      (mask.epollErr || mask.epollHup) = false ∧ (mask.epollOut = true → ∃ n, o.written = .ok n) ∧
        (mask.epollIn = true → ∃ data n, data ≠ [] ∧ o.readiness = ⟨.ok data, .ok n⟩)
  | _ => True

/-- The bytes that an action gives the client to read. -/
def ClientAction.read : ClientAction → List UInt8
  | .events mask o => if mask.epollIn then o.readiness.bytes else []
  | _ => []

/-- The bytes that a run gives the client to read. -/
def received (trace : List (Moment EventClient ClientAction LoopOutput)) : List UInt8 :=
  (Machine.inputs trace).flatMap ClientAction.read

/-- The number of calls of the connected callback. -/
def connects (out : List LoopOutput) : ℕ :=
  out.countP fun
    | .did .connectedCallback => true
    | _ => false

/-- What is written past the queue: C0 and C1, or C2. -/
def directWrites (out : List LoopOutput) : List (List UInt8) :=
  out.filterMap fun
    | .did (.write data) => some data
    | _ => none

/-- The spans that are handed to `process_input`. -/
def loopSpans (out : List LoopOutput) : List (List UInt8) :=
  out.filterMap fun
    | .did (.processInput data) => some data
    | _ => none

@[simp] theorem received_snoc (trace : List (Moment EventClient ClientAction LoopOutput))
    (m : Moment EventClient ClientAction LoopOutput) :
    received (trace ++ [m]) = received trace ++ m.input.read := by
  simp [received]

@[simp] theorem connects_append (l₁ l₂ : List LoopOutput) :
    connects (l₁ ++ l₂) = connects l₁ + connects l₂ := List.countP_append ..

@[simp] theorem directWrites_append (l₁ l₂ : List LoopOutput) :
    directWrites (l₁ ++ l₂) = directWrites l₁ ++ directWrites l₂ := List.filterMap_append ..

@[simp] theorem loopSpans_append (l₁ l₂ : List LoopOutput) :
    loopSpans (l₁ ++ l₂) = loopSpans l₁ ++ loopSpans l₂ := List.filterMap_append ..

/-- What is to happen when `data` is read behind `before`: the read that brings the 3073rd byte is
answered with the bytes behind the version, and the connected callback is called; the first bytes that
the session gets are those behind the 3073rd.  C0 and C1, which are `hello`, may be written at any
time. -/
structure HandshakeAt (hello before data : List UInt8) (out : List LoopOutput) : Prop where
  callback : connects out = if before.length < 3073 ∧ 3073 ≤ (before ++ data).length then 1 else 0
  answer : ∃ k, directWrites out = List.replicate k hello ++
    if before.length < 3073 ∧ 3073 ≤ (before ++ data).length then
      [((before ++ data).drop 1).take 1536]
    else []
  first : before.length ≤ 3073 →
    loopSpans out = if 3073 < (before ++ data).length then [(before ++ data).drop 3073] else []

/-- Nothing happens but that C0 and C1 are written. -/
structure Quiet (hello : List UInt8) (out : List LoopOutput) : Prop where
  connects : connects out = 0
  directWrites : ∃ k, directWrites out = List.replicate k hello
  loopSpans : loopSpans out = []

theorem Quiet.nil (hello : List UInt8) : Quiet hello [] := ⟨rfl, ⟨0, rfl⟩, rfl⟩

theorem Quiet.accepted (hello data : List UInt8) : Quiet hello [.accepted data] := ⟨rfl, ⟨0, rfl⟩, rfl⟩

/-- A step that reads nothing is as it should be, if it is quiet. -/
theorem Quiet.handshakeAt {hello : List UInt8} {out : List LoopOutput} (h : Quiet hello out)
    (before : List UInt8) : HandshakeAt hello before [] out := by
  have hnot : ¬ (before.length < 3073 ∧ 3073 ≤ (before ++ []).length) := by
    rw [List.append_nil]
    omega
  obtain ⟨k, hk⟩ := h.directWrites
  refine ⟨by rw [h.connects, if_neg hnot], ⟨k, by rw [hk, if_neg hnot, List.append_nil]⟩,
    fun hle => ?_⟩
  rw [List.append_nil, h.loopSpans, if_neg (by omega)]

theorem HandshakeAt.quiet_append {hello before data : List UInt8} {out out' : List LoopOutput}
    (h : HandshakeAt hello before data out') (hquiet : Quiet hello out) :
    HandshakeAt hello before data (out ++ out') := by
  obtain ⟨k, hk⟩ := hquiet.directWrites
  obtain ⟨k', hk'⟩ := h.answer
  refine ⟨?_, ⟨k + k', ?_⟩, fun hle => ?_⟩
  · rw [connects_append, hquiet.connects, h.callback, Nat.zero_add]
  · rw [directWrites_append, hk, hk', ← List.append_assoc, List.replicate_append_replicate]
  · rw [loopSpans_append, hquiet.loopSpans, h.first hle, List.nil_append]

namespace Client

variable {c : Client}

/-- What is left of a read is handed over, and nothing is written. -/
theorem events_processBufferedData (c : Client) :
    connects (c.processBufferedData.2.map .did) = 0 ∧
      directWrites (c.processBufferedData.2.map .did) = [] ∧
      loopSpans (c.processBufferedData.2.map .did) =
        if c.readBuffer = [] then [] else [c.readBuffer] := by
  unfold processBufferedData
  by_cases hempty : c.readBuffer = []
  · rw [if_pos (List.isEmpty_iff.2 hempty), if_pos hempty]
    exact ⟨rfl, rfl, rfl⟩
  · rw [if_neg (by rwa [List.isEmpty_iff]), if_neg hempty]
    dsimp only
    refine ⟨?_, ?_, ?_⟩
    · simp [connects, List.countP_map, List.countP_eq_zero]
    · simp [directWrites, List.filterMap_map]
    · simp [loopSpans, List.filterMap_map]

theorem keeps_processBufferedData (hdone : c.session.handshake.isDone = true) :
    c.processBufferedData.1.session.handshake.isDone = true ∧
      (c.readBuffer = [] → c.processBufferedData.1.readBuffer = []) := by
  unfold processBufferedData
  split
  · exact ⟨hdone, id⟩
  · rename_i hne
    refine ⟨?_, fun hempty => absurd (List.isEmpty_iff.2 hempty) hne⟩
    rw [Session.handshake_processInput hdone]
    exact hdone

end Client

namespace EventClient

variable {c c' c₀ : EventClient} {policy : GrowthPolicy} {out : List LoopOutput}
  {action : ClientAction} {hello before data : List UInt8}

/-- A client that has received `before`. -/
structure AtStream (hello before : List UInt8) (c : EventClient) : Prop where
  socketOpen : c.socketOpen = true
  registered : c.interest ≠ none
  handshakeData : c.handshakeData = hello
  stage : (before.length < 3073 ∧ c.session.handshake.state = .c0c1Sent ∧ c.connected = false ∧
      c.readBuffer = before) ∨
    (3073 ≤ before.length ∧ c.session.handshake.isDone = true ∧ c.connected = true ∧
      (before.length = 3073 → c.readBuffer = []))

theorem AtStream.of_undisturbed (h : c.AtStream hello before) (hkeeps : c.Undisturbed c') :
    c'.AtStream hello before := by
  refine ⟨hkeeps.socketOpen.trans h.socketOpen, hkeeps.registered h.registered,
    hkeeps.handshakeData.trans h.handshakeData, ?_⟩
  rw [hkeeps.handshake, hkeeps.readBuffer, hkeeps.still]
  exact h.stage

theorem quiet_handleWritable (c : EventClient) (n : ℕ) : Quiet hello (c.handleWritable (.ok n)).2 := by
  unfold handleWritable
  dsimp only
  split
  · exact .nil hello
  · split
    · exact .accepted hello _
    · exact .accepted hello _

theorem quiet_onWritable (c : EventClient) (n : ℕ) :
    Quiet c.handshakeData (c.onWritable (.ok n)).2 := by
  have hwrite : Quiet c.handshakeData [.did (.write c.handshakeData)] := ⟨rfl, ⟨1, rfl⟩, rfl⟩
  by_cases hconnecting : c.connecting = true
  · unfold onWritable
    rw [if_pos hconnecting]
    dsimp only
    split
    · exact hwrite
    · exact hwrite
  · unfold onWritable
    rw [if_neg hconnecting]
    exact c.quiet_handleWritable n

theorem quiet_flush (c : EventClient) (written : Except Failure ℕ) :
    Quiet hello (c.flush written).2 := by
  unfold flush
  split
  · exact .nil hello
  · dsimp only
    split
    · exact .nil hello
    · split
      · exact .nil hello
      · split
        · exact .accepted hello _
        · exact .accepted hello _

theorem handleReadable_open {client : Client} {events : List ClientEvent} {r : Readiness}
    (hopen : c.socketOpen = true) (hcall : c.toClient.handleReadable r = .ok (client, events))
    (hclient : client.socketOpen = true) :
    c.handleReadable r = .ok ({ c with toClient := client }, events.map .did) := by
  rw [EventClient.handleReadable, if_pos hopen, hcall]
  simp only [hclient, Bool.not_true, Bool.and_false, Bool.false_eq_true, if_false]

theorem AtStream.completes (h : c.AtStream hello before) (hdata : data ≠ []) (n : ℕ)
    (hversion : ∀ version, (before ++ data).head? = some version → version = 3)
    (hshort : before.length < 3073) (hstate : c.session.handshake.state = .c0c1Sent)
    (hconnected : c.connected = false) (hbuffer : c.readBuffer = before)
    (hcross : 3073 ≤ (before ++ data).length)
    (hcall : c.handleReadable ⟨.ok data, .ok n⟩ = .ok (c', out)) :
    c'.AtStream hello (before ++ data) ∧ HandshakeAt hello before data out := by
  have hcomplete : c.session.handshake.ServerComplete (c.readBuffer ++ data) := by
    obtain ⟨version, hhead⟩ : ∃ version, (before ++ data).head? = some version := by
      rw [← Option.isSome_iff_exists, List.isSome_head?]
      exact List.append_ne_nil_of_right_ne_nil before hdata
    rw [hbuffer]
    exact ⟨hstate, hcross, by rw [hhead, hversion version hhead]⟩
  obtain ⟨handshake, hdone, hclient⟩ :=
    Client.handleReadable_completes hconnected hdata hcomplete n
  rw [hbuffer] at hclient
  set client : Client := { c.toClient with
    session := { c.session with handshake := handshake }
    readBuffer := (before ++ data).drop Handshake.s0s1s2Size
    connected := true } with hclient'
  obtain ⟨-, hopen, -, -⟩ := client.processBufferedData_spec
  have hopen' : client.processBufferedData.1.socketOpen = true := hopen.trans h.socketOpen
  have hread := @handleReadable_open c client.processBufferedData.1
    (.write (((before ++ data).drop 1).take 1536) :: .connectedCallback ::
      client.processBufferedData.2) _ h.socketOpen hclient hopen'
  obtain ⟨rfl, rfl⟩ := Prod.mk.inj (Except.ok.inj (hread.symm.trans hcall))
  obtain ⟨hconnects, hwrites, hspans⟩ := client.events_processBufferedData
  obtain ⟨hdone', hempty⟩ := Client.keeps_processBufferedData (c := client) hdone
  constructor
  · refine ⟨hopen', h.registered, h.handshakeData,
      .inr ⟨hcross, hdone', client.connected_processBufferedData, fun hall => ?_⟩⟩
    refine hempty (List.drop_eq_nil_iff.2 ?_)
    rw [hall]
    exact Nat.le_refl 3073
  · have hcond : before.length < 3073 ∧ 3073 ≤ (before ++ data).length := ⟨hshort, hcross⟩
    refine ⟨?_, ⟨0, ?_⟩, fun _ => ?_⟩
    · change connects ([.did (.write _), .did .connectedCallback] ++
        client.processBufferedData.2.map .did) = _
      rw [connects_append, hconnects, if_pos hcond]
      rfl
    · change directWrites ([.did (.write _), .did .connectedCallback] ++
        client.processBufferedData.2.map .did) = _
      rw [directWrites_append, hwrites, if_pos hcond]
      rfl
    · refine hspans.trans ?_
      have hnil : client.readBuffer = [] ↔ ¬ 3073 < (before ++ data).length := by
        rw [hclient', List.drop_eq_nil_iff, Handshake.s0s1s2Size]
        omega
      by_cases hmore : 3073 < (before ++ data).length
      · rw [if_pos hmore, if_neg fun h => hnil.1 h hmore]
        rfl
      · rw [if_neg hmore, if_pos (hnil.2 hmore)]

theorem AtStream.waits (h : c.AtStream hello before) (hdata : data ≠ []) (n : ℕ)
    (hstate : c.session.handshake.state = .c0c1Sent)
    (hconnected : c.connected = false) (hbuffer : c.readBuffer = before)
    (hcross : ¬ 3073 ≤ (before ++ data).length)
    (hcall : c.handleReadable ⟨.ok data, .ok n⟩ = .ok (c', out)) :
    c'.AtStream hello (before ++ data) ∧ HandshakeAt hello before data out := by
  have hlen : (before ++ data).length = before.length + data.length := List.length_append
  have hnot : ¬ c.session.handshake.ServerComplete (c.readBuffer ++ data) := by
    rw [hbuffer]
    exact fun hcomplete => hcross hcomplete.2.1
  have hclient := Client.handleReadable_waits hconnected hdata hnot (.ok n)
  rw [hbuffer] at hclient
  rw [handleReadable_open h.socketOpen hclient h.socketOpen] at hcall
  obtain ⟨rfl, rfl⟩ := Prod.mk.inj (Except.ok.inj hcall)
  have hcond : ¬ (before.length < 3073 ∧ 3073 ≤ (before ++ data).length) := fun h => hcross h.2
  refine ⟨⟨h.socketOpen, h.registered, h.handshakeData,
    .inl ⟨not_le.1 hcross, hstate, hconnected, rfl⟩⟩, ?_, ⟨0, ?_⟩, fun _ => ?_⟩
  · rw [if_neg hcond]
    rfl
  · rw [if_neg hcond]
    rfl
  · rw [if_neg (by omega)]
    rfl

theorem AtStream.takes (h : c.AtStream hello before) (hdata : data ≠ []) (n : ℕ)
    (hlong : 3073 ≤ before.length) (hdone : c.session.handshake.isDone = true)
    (hconnected : c.connected = true) (hbuffer : before.length = 3073 → c.readBuffer = [])
    (hcall : c.handleReadable ⟨.ok data, .ok n⟩ = .ok (c', out)) :
    c'.AtStream hello (before ++ data) ∧ HandshakeAt hello before data out := by
  have hlen : (before ++ data).length = before.length + data.length := List.length_append
  have hpos : 1 ≤ data.length := List.length_pos_iff.2 hdata
  have hclient : c.toClient.handleReadable ⟨.ok data, .ok n⟩ =
      .ok { c.toClient with readBuffer := c.readBuffer ++ data }.processBufferedData := by
    have hne : data.length ≠ 0 := by omega
    simp only [Client.handleReadable, hne, if_false, hconnected, Bool.not_true, Bool.false_eq_true]
  set client : Client := { c.toClient with readBuffer := c.readBuffer ++ data } with hclient'
  obtain ⟨-, hopen, -, -⟩ := client.processBufferedData_spec
  have hopen' : client.processBufferedData.1.socketOpen = true := hopen.trans h.socketOpen
  have hread := @handleReadable_open c client.processBufferedData.1 client.processBufferedData.2 _
    h.socketOpen hclient hopen'
  obtain ⟨rfl, rfl⟩ := Prod.mk.inj (Except.ok.inj (hread.symm.trans hcall))
  obtain ⟨hconnects, hwrites, hspans⟩ := client.events_processBufferedData
  obtain ⟨hdone', -⟩ := Client.keeps_processBufferedData (c := client) hdone
  have hcond : ¬ (before.length < 3073 ∧ 3073 ≤ (before ++ data).length) := fun h => by omega
  refine ⟨⟨hopen', h.registered, h.handshakeData, .inr ⟨by omega, hdone',
    client.connected_processBufferedData.trans hconnected, fun h => by omega⟩⟩, ?_, ⟨0, ?_⟩,
    fun hle => ?_⟩
  · rw [hconnects, if_neg hcond]
  · rw [hwrites, if_neg hcond]
    rfl
  · have hexact : before.length = 3073 := by omega
    have hne : client.readBuffer ≠ [] := List.append_ne_nil_of_right_ne_nil _ hdata
    rw [hspans, if_neg hne, if_pos (by omega), hclient', ← hexact, List.drop_left]
    rw [hbuffer hexact, List.nil_append]

/-- **A read is handled as it should be**, whatever has been received before. -/
theorem AtStream.handleReadable (h : c.AtStream hello before) (hdata : data ≠ []) (n : ℕ)
    (hversion : ∀ version, (before ++ data).head? = some version → version = 3)
    (hcall : c.handleReadable ⟨.ok data, .ok n⟩ = .ok (c', out)) :
    c'.AtStream hello (before ++ data) ∧ HandshakeAt hello before data out := by
  rcases h.stage with ⟨hshort, hstate, hconnected, hbuffer⟩ | ⟨hlong, hdone, hconnected, hbuffer⟩
  · by_cases hcross : 3073 ≤ (before ++ data).length
    · exact h.completes hdata n hversion hshort hstate hconnected hbuffer hcross hcall
    · exact h.waits hdata n hstate hconnected hbuffer hcross hcall
  · exact h.takes hdata n hlong hdone hconnected hbuffer hcall

/-- **An action is handled as it should be.** -/
theorem AtStream.perform (h : c.AtStream hello before) (hsound : c.Sound) (hsmooth : action.Smooth)
    (hversion : ∀ version, (before ++ action.read).head? = some version → version = 3)
    (hcall : c.perform policy action = .ok (c', out)) :
    c'.AtStream hello (before ++ action.read) ∧ HandshakeAt hello before action.read out := by
  have hquiet (hread : action.read = []) (hkeeps : c.Undisturbed c') (hout : Quiet hello out) :
      c'.AtStream hello (before ++ action.read) ∧ HandshakeAt hello before action.read out := by
    rw [hread, List.append_nil]
    exact ⟨h.of_undisturbed hkeeps, hout.handshakeAt before⟩
  cases action with
  | connect o => exact hsmooth.elim
  | disconnect => exact hsmooth.elim
  | sendMessage msg =>
      obtain rfl := outputs_of_send rfl hcall
      exact hquiet rfl (undisturbed_send rfl hcall) (.nil hello)
  | sendCommand cmd csid =>
      obtain rfl := outputs_of_send rfl hcall
      exact hquiet rfl (undisturbed_send rfl hcall) (.nil hello)
  | flush written =>
      obtain ⟨rfl, rfl⟩ := Prod.mk.inj (Except.ok.inj hcall)
      exact hquiet rfl (c.undisturbed_flush written) (c.quiet_flush written)
  | events mask o =>
      obtain ⟨hstands, hwritten, hreadiness⟩ := hsmooth
      have hsome : c.interest.isSome = true := Option.isSome_iff_ne_none.2 h.registered
      simp only [EventClient.perform, hsome, if_true] at hcall
      obtain ⟨-, c₂, out₂, -, hread, -, hstate, hout⟩ := hsound.onEvents hcall
      set r₁ := if mask.epollOut then c.onWritable o.written else (c, []) with hr₁
      have hwrite : c.Undisturbed r₁.1 ∧ Quiet hello r₁.2 := by
        rw [hr₁]
        split
        · rename_i hepollOut
          obtain ⟨n, hn⟩ := hwritten hepollOut
          rw [hn, ← h.handshakeData]
          exact ⟨c.undisturbed_onWritable n, c.quiet_onWritable n⟩
        · exact ⟨.refl c, .nil hello⟩
      simp only [hstands, Bool.false_eq_true, if_false, List.append_nil] at hstate hout
      obtain rfl := hstate
      obtain rfl := hout
      cases hin : mask.epollIn with
      | false =>
          simp only [hin, Bool.false_eq_true, if_false] at hread
          obtain ⟨rfl, rfl⟩ := Prod.mk.inj (Except.ok.inj hread)
          rw [List.append_nil] at hquiet ⊢
          refine hquiet ?_ hwrite.1 hwrite.2
          simp only [ClientAction.read, hin, Bool.false_eq_true, if_false]
      | true =>
          obtain ⟨data, n, hdata, hr⟩ := hreadiness hin
          have hbytes : ClientAction.read (.events mask o) = data := by
            simp only [ClientAction.read, hin, if_true, hr, Readiness.bytes]
          rw [hbytes] at hversion ⊢
          simp only [hin, if_true, hr] at hread
          obtain ⟨hstream, hout⟩ :=
            (h.of_undisturbed hwrite.1).handleReadable hdata n hversion hread
          exact ⟨hstream, hout.quiet_append hwrite.2⟩

theorem AtStream.connect (hidle : c₀.Idle) {o : ConnectOutcome} (ho : o.Succeeds) :
    (c₀.connect policy o).AtStream (c₀.connect policy o).handshakeData [] := by
  obtain ⟨socket, setNonblocking, connect, add, random⟩ := o
  obtain ⟨rfl, rfl, rfl, rfl⟩ := ho
  exact ⟨rfl, Option.some_ne_none _, rfl, .inl ⟨by decide, rfl, hidle.connected, hidle.readBuffer⟩⟩

theorem version_of_append {before data : List UInt8}
    (h : ∀ version, (before ++ data).head? = some version → version = 3) :
    ∀ version, before.head? = some version → version = 3 := by
  intro version hhead
  refine h version ?_
  rw [List.head?_append, hhead]
  rfl

/-- **Where a client stands is a matter of the bytes that it has received.** -/
theorem AtStream.run (hidle : c₀.Idle) {o : ConnectOutcome} (ho : o.Succeeds)
    {trace : List (Moment EventClient ClientAction LoopOutput)}
    (hrun : Run (machine policy) (c₀.connect policy o) trace c)
    (hsmooth : ∀ m ∈ trace, m.input.Smooth)
    (hversion : ∀ version, (received trace).head? = some version → version = 3) :
    c.AtStream (c₀.connect policy o).handshakeData (received trace) ∧
      connects (Machine.outputs trace) = if 3073 ≤ (received trace).length then 1 else 0 := by
  have hsound : (c₀.connect policy o).Sound := hidle.sound.connect o
  refine hrun.invariant (P := fun m => m.input.Smooth)
    (I := fun trace c => (∀ version, (received trace).head? = some version → version = 3) →
      c.AtStream (c₀.connect policy o).handshakeData (received trace) ∧
        connects (Machine.outputs trace) = if 3073 ≤ (received trace).length then 1 else 0)
    hsmooth (fun _ => ⟨.connect hidle ho, rfl⟩) ?_ hversion
  intro trace c action out c' hrun ih hsmooth hstep hversion
  rw [received_snoc] at hversion
  obtain ⟨hstream, hcount⟩ := ih (version_of_append hversion)
  obtain ⟨hstream', hout⟩ := hstream.perform (hsound.run hrun) hsmooth hversion hstep
  rw [received_snoc, Machine.outputs_snoc, connects_append, hcount, hout.callback]
  refine ⟨hstream', ?_⟩
  -- the callback is called at the read that crosses the line, and at no other
  change _ + _ = if 3073 ≤ (received trace ++ action.read).length then 1 else 0
  rw [List.length_append]
  split_ifs <;> omega

/-- **A server that answers with the version 3 is answered in the same way, however its bytes are cut**:
after any `connect` of an idle client, as long as writes are successful and reads give bytes, the connected callback is called
once, at the read that brings the 3073rd byte; this read is answered with the 1536 bytes behind the
first; and the session first gets the bytes behind the 3073rd. -/
theorem handshake_segmentation (hidle : c₀.Idle) {o : ConnectOutcome} (ho : o.Succeeds)
    {trace : List (Moment EventClient ClientAction LoopOutput)}
    (hrun : Run (machine policy) (c₀.connect policy o) trace c)
    (hsmooth : ∀ m ∈ trace, m.input.Smooth)
    (hversion : ∀ version, (received trace).head? = some version → version = 3) :
    connects (Machine.outputs trace) = (if 3073 ≤ (received trace).length then 1 else 0) ∧
      ∀ before m after, trace = before ++ m :: after →
        HandshakeAt (c₀.connect policy o).handshakeData (received before) m.input.read m.outputs := by
  have hsound : (c₀.connect policy o).Sound := hidle.sound.connect o
  refine ⟨(AtStream.run hidle ho hrun hsmooth hversion).2, ?_⟩
  rintro before m after rfl
  obtain ⟨hbefore, c', hstep, -⟩ := hrun.split
  have hread : received (before ++ m :: after) =
      (received before ++ m.input.read) ++ received after := by
    simp [received, Machine.inputs]
  rw [hread] at hversion
  have hversion' := version_of_append hversion
  obtain ⟨hstream, -⟩ := AtStream.run hidle ho hbefore
    (fun m' hm' => hsmooth m' (List.mem_append_left _ hm')) (version_of_append hversion')
  have hm : m.input.Smooth := hsmooth m (List.mem_append_right _ List.mem_cons_self)
  exact (hstream.perform (hsound.run hbefore) hm hversion' hstep).2

/-- The answer of a server, in two reads: the second one has the last byte of it, and another one. -/
theorem handshake_segmentation_two_reads : ∃ trace c,
    Run (machine .exact) (waiting fun _ => 0) trace c ∧
      Machine.inputs trace = [reading (3 :: List.replicate 3071 7), reading [7, 9]] ∧
      connects (Machine.outputs trace) = 1 ∧
      ∀ before m after, trace = before ++ m :: after →
        HandshakeAt (waiting fun _ => 0).handshakeData (received before) m.input.read m.outputs := by
  have hsound : (waiting fun _ => 0).Sound := (Sound.new .exact).connect _
  obtain ⟨trace, c, hrun, hinputs⟩ := hsound.exists_run .exact
    (show ∀ action ∈ [reading (3 :: List.replicate 3071 7), reading [7, 9]], action.Single by
      intro action hmem
      rcases List.mem_pair.1 hmem with rfl | rfl <;> exact single_reading _)
  have hreceived : received trace = 3 :: (List.replicate 3071 7 ++ [7, 9]) := by
    rw [received, hinputs]
    rfl
  have hsmooth : ∀ m ∈ trace, m.input.Smooth := by
    intro m hm
    have hmem : m.input ∈ Machine.inputs trace := List.mem_map.2 ⟨m, hm, rfl⟩
    rw [hinputs] at hmem
    simp only [List.mem_cons, List.not_mem_nil, or_false] at hmem
    rcases hmem with heq | heq <;> rw [heq] <;>
      exact ⟨rfl, fun h => absurd h Bool.false_ne_true, fun _ => ⟨_, 1536, List.cons_ne_nil _ _, rfl⟩⟩
  have hversion : ∀ version, (received trace).head? = some version → version = 3 := by
    intro version hhead
    rw [hreceived] at hhead
    exact (Option.some.inj hhead).symm
  obtain ⟨hcount, hmoments⟩ := handshake_segmentation (.new .exact) (o := ⟨true, true, true, true, fun _ => 0⟩)
    ⟨rfl, rfl, rfl, rfl⟩ hrun hsmooth hversion
  refine ⟨trace, c, hrun, hinputs, ?_, hmoments⟩
  rw [hcount, hreceived, List.length_cons, List.length_append, List.length_replicate]
  rfl

end EventClient

end Rtmp
