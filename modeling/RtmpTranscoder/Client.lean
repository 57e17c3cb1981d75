/-
**The client's receive path.**

`rtmp::Client` collects what it reads in `read_buffer_`, gives the whole buffer to
`Session::process_input`, and erases the bytes that the session reports as consumed.  The session's
parser, however, keeps the bytes of an incomplete chunk in a buffer of its own.  A read that ends
inside a chunk therefore leaves these bytes in both buffers, and at the next read the parser finds
them twice.  `RelayManager` reads from its publishers without a buffer: each read goes to
`process_input` once, and the returned count is ignored.

The model of a call of `handle_readable` is given what the socket answers, to the read and to the
write of C2, and returns what the client does, in order.

Main definitions:

* `Rtmp.Client` — with `cleanup`, `processBufferedData` and `handleReadable`;
* `Rtmp.Readiness`, `Rtmp.ClientEvent` — what the socket answers, and what the client does;
* `Rtmp.Client.handleAll` — a list of calls of `handle_readable`;
* `Rtmp.Client.Agrees` — the callback gets what the publisher's path would give it, and every byte
  is handed to the session once.

Main results:

* `Rtmp.Client.handleReadable_completes` — the read that completes the handshake;
* `Rtmp.Client.handleReadable_connected` — every read after it;
* `Rtmp.Client.agrees_iff` — **the two paths agree exactly if no read but the last ends inside a
  chunk**;
* `Rtmp.Client.diverges` — a message whose header and payload come in two reads.
-/

import RtmpTranscoder.Session

set_option relaxedAutoImplicit false
set_option autoImplicit false

namespace Rtmp

open Incremental

/-- The fields of `Client` that receiving reads or writes; `socketOpen` is `socket_.is_valid()`. -/
structure Client where
  socketOpen : Bool
  session : Session
  connected : Bool
  connecting : Bool
  readBuffer : List UInt8

/-- What the socket answers to one call of `handle_readable`: to the read, and to the write of C2, if
there is one. -/
structure Readiness where
  read : Except Failure (List UInt8)
  written : Except Failure ℕ

/-- What a client does, in order.  The calls of `process_input` are listed with their spans. -/
inductive ClientEvent where
  | write (data : List UInt8)
  | connectedCallback
  | disconnectedCallback
  | processInput (data : List UInt8)
  | messageCallback (msg : Message)

namespace Client

/-- `Client::cleanup`. -/
def cleanup (c : Client) : Client × List ClientEvent :=
  ({ c with socketOpen := false, connected := false, connecting := false }, [.disconnectedCallback])

/-- `Client::process_buffered_data`. -/
def processBufferedData (c : Client) : Client × List ClientEvent :=
  if c.readBuffer.isEmpty then (c, [])
  else
    let (session, messages, result) := c.session.processInput c.readBuffer
    let readBuffer :=
      match result with
      | .ok consumed =>
          if 0 < consumed then
            if consumed ≤ c.readBuffer.length then c.readBuffer.drop consumed else []
          else c.readBuffer
      | .error _ => c.readBuffer
    ({ c with session := session, readBuffer := readBuffer },
      .processInput c.readBuffer :: messages.map .messageCallback)

/-- The branch of `Client::handle_readable` before the connection stands. -/
def handleHandshake (c : Client) (written : Except Failure ℕ) :
    Except Failure (Client × List ClientEvent) :=
  match c.session.handshake.processServerHandshake c.readBuffer with
  | (handshake, .error _) => .ok ({ c with session := { c.session with handshake := handshake } }, [])
  | (handshake, .ok consumed) =>
      match handshake.generateC2 handshake.s1Data with
      | (_, .error f) => .error f
      | (handshake, .ok c2Data) =>
          let c : Client :=
            { c with
              session := { c.session with handshake := handshake }
              readBuffer := c.readBuffer.drop consumed
              connected := true }
          match written with
          | .error _ => .ok (c.cleanup.1, .write c2Data :: c.cleanup.2)
          | .ok _ =>
              let r := if c.readBuffer.isEmpty then (c, []) else c.processBufferedData
              .ok (r.1, .write c2Data :: .connectedCallback :: r.2)

/-- `Client::handle_readable`. -/
def handleReadable (c : Client) (r : Readiness) : Except Failure (Client × List ClientEvent) :=
  match r.read with
  | .error _ => .ok c.cleanup
  | .ok data =>
      if data.length = 0 then .ok c.cleanup
      else
        let c := { c with readBuffer := c.readBuffer ++ data }
        if !c.connected then c.handleHandshake r.written else .ok c.processBufferedData

/-- A list of calls of `handle_readable`. -/
def handleAll (c : Client) : List Readiness → Except Failure (Client × List ClientEvent)
  | [] => .ok (c, [])
  | r :: rs =>
      match c.handleReadable r with
      | .error f => .error f
      | .ok (c, events) => (handleAll c rs).map fun q => (q.1, events ++ q.2)

end Client

/-- The messages that the message callback is called with. -/
def messagesOf (events : List ClientEvent) : List Message :=
  events.filterMap fun
    | .messageCallback msg => some msg
    | _ => none

/-- The spans that are handed to `process_input`. -/
def spansOf (events : List ClientEvent) : List (List UInt8) :=
  events.filterMap fun
    | .processInput data => some data
    | _ => none

@[simp] theorem messagesOf_append (l₁ l₂ : List ClientEvent) :
    messagesOf (l₁ ++ l₂) = messagesOf l₁ ++ messagesOf l₂ := List.filterMap_append ..

@[simp] theorem spansOf_append (l₁ l₂ : List ClientEvent) :
    spansOf (l₁ ++ l₂) = spansOf l₁ ++ spansOf l₂ := List.filterMap_append ..

@[simp] theorem messagesOf_processInput (data : List UInt8) (messages : List Message) :
    messagesOf (.processInput data :: messages.map .messageCallback) = messages := by
  simp [messagesOf, List.filterMap_map]

@[simp] theorem spansOf_processInput (data : List UInt8) (messages : List Message) :
    spansOf (.processInput data :: messages.map .messageCallback) = [data] := by
  simp [spansOf, List.filterMap_map]

namespace Client

variable {c : Client}

/-! ### One call -/

/-- **The read that completes the handshake**: C2 is the echo of S1, and what is left of the read is
handled as a read of its own. -/
theorem handleReadable_completes (hconnected : c.connected = false) {data : List UInt8}
    (hdata : data ≠ []) (hcomplete : c.session.handshake.ServerComplete (c.readBuffer ++ data))
    (n : ℕ) :
    ∃ handshake : Handshake, handshake.isDone = true ∧
      let rest := (c.readBuffer ++ data).drop Handshake.s0s1s2Size
      let c' : Client :=
        { c with
          session := { c.session with handshake := handshake }
          readBuffer := rest
          connected := true }
      c.handleReadable ⟨.ok data, .ok n⟩ =
        .ok (c'.processBufferedData.1,
          .write (((c.readBuffer ++ data).drop 1).take 1536) :: .connectedCallback ::
            c'.processBufferedData.2) := by
  have hs1 : (((c.readBuffer ++ data).drop 1).take 1536).length = 1536 := by
    have hlen := hcomplete.2.1
    rw [Handshake.s0s1s2Size] at hlen
    rw [List.length_take, List.length_drop]
    omega
  rcases c.session.handshake.processServerHandshake_cases (c.readBuffer ++ data) with
    ⟨-, hok⟩ | ⟨hnot, -⟩
  · have hc2 : bytesAt (((c.readBuffer ++ data).drop 1).take 1536) 0 1536
        = .ok (((c.readBuffer ++ data).drop 1).take 1536) := by
      rw [bytesAt_of_le (by omega), List.drop_zero, List.take_of_length_le (by omega)]
    have hlen' : data.length ≠ 0 := fun h => hdata (List.eq_nil_of_length_eq_zero h)
    refine ⟨{ c.session.handshake with
      s1Data := ((c.readBuffer ++ data).drop 1).take 1536, state := .done }, rfl, ?_⟩
    simp only [handleReadable, hlen', if_false, hconnected, Bool.not_false, if_true,
      handleHandshake, hok, Handshake.generateC2, hc2]
    split
    · rename_i hempty
      simp only [processBufferedData, hempty, if_true]
    · rfl
  · exact absurd hcomplete hnot

/-- Every read after the handshake is put behind what is left of the earlier ones, and all of it is
handed to the session. -/
theorem handleReadable_connected (hconnected : c.connected = true)
    (hdone : c.session.handshake.isDone = true) {r : Readiness} {data : List UInt8}
    (hr : r.read = .ok data) (hdata : data ≠ []) :
    ∃ c' events, c.handleReadable r = .ok (c', events) ∧
      c'.connected = true ∧ c'.session = (c.session.processInput (c.readBuffer ++ data)).1 ∧
      messagesOf events = (c.session.processInput (c.readBuffer ++ data)).2.1 ∧
      spansOf events = [c.readBuffer ++ data] ∧
      (c.session.parser.buffer = [] → c'.readBuffer.length = c'.session.parser.buffer.length) := by
  obtain ⟨bytes, hbytes, hresult⟩ :=
    c.session.buffer_processInput hdone (c.readBuffer ++ data)
  have hlen : data.length ≠ 0 := fun h => hdata (List.eq_nil_of_length_eq_zero h)
  have hne : (c.readBuffer ++ data).isEmpty = false := by
    simpa using fun _ => hdata
  have hcall : c.handleReadable r
      = .ok { c with readBuffer := c.readBuffer ++ data }.processBufferedData := by
    simp only [handleReadable, hr, hlen, if_false, hconnected, Bool.not_true, Bool.false_eq_true]
  refine ⟨{ c with readBuffer := c.readBuffer ++ data }.processBufferedData.1,
    { c with readBuffer := c.readBuffer ++ data }.processBufferedData.2, hcall, ?_⟩
  · simp only [processBufferedData, hne, Bool.false_eq_true, if_false, hconnected, hresult,
      messagesOf_processInput, spansOf_processInput, true_and]
    intro hbuffer
    rw [hbuffer, List.nil_append] at hbytes
    have hlength := congrArg List.length hbytes
    rw [List.length_append, List.length_append] at hlength
    rw [hbuffer, List.length_nil, Nat.sub_zero]
    split
    · rw [if_pos (by rw [List.length_append]; omega), List.length_drop, List.length_append]
      omega
    · rw [List.length_append]
      omega

/-! ### Runs -/

/-- The callback gets the messages that the publisher's path makes of the reads, and every byte is
handed to the session once. -/
def Agrees (c : Client) (rs : List Readiness) (reads : List (List UInt8)) : Prop :=
  ∃ c' events, c.handleAll rs = .ok (c', events) ∧
    messagesOf events = (c.session.processAll reads).2 ∧
    (spansOf events).flatten = reads.flatten

theorem handleAll_cons {rs : List Readiness} {r : Readiness} {c' c'' : Client}
    {events events' : List ClientEvent} (hr : c.handleReadable r = .ok (c', events))
    (hrs : c'.handleAll rs = .ok (c'', events')) :
    c.handleAll (r :: rs) = .ok (c'', events ++ events') := by
  simp only [handleAll, hr, hrs]
  rfl

/-- A connected client hands over at least the bytes it reads, and with the first of them also what
it still holds. -/
theorem length_spansOf (hconnected : c.connected = true)
    (hdone : c.session.handshake.isDone = true) {rs : List Readiness} {reads : List (List UInt8)}
    (hrs : rs.map Readiness.read = reads.map .ok) (hreads : ∀ data ∈ reads, data ≠ []) :
    ∃ c' events, c.handleAll rs = .ok (c', events) ∧
      reads.flatten.length + (if reads = [] then 0 else c.readBuffer.length)
        ≤ (spansOf events).flatten.length := by
  induction reads generalizing c rs with
  | nil =>
      obtain rfl := List.map_eq_nil_iff.1 hrs
      exact ⟨c, [], rfl, by simp [spansOf]⟩
  | cons data reads ih =>
      obtain ⟨r, rs, rfl, hr, hrs'⟩ := List.map_eq_cons_iff.1 hrs
      obtain ⟨c₁, events₁, hcall, hconnected₁, hsession, -, hspans, -⟩ :=
        handleReadable_connected hconnected hdone hr (hreads data List.mem_cons_self)
      have hdone₁ : c₁.session.handshake.isDone = true := by
        rw [hsession, Session.handshake_processInput hdone]
        exact hdone
      obtain ⟨c₂, events₂, hrest, hlen⟩ := ih hconnected₁ hdone₁ hrs' fun d hd =>
        hreads d (List.mem_cons_of_mem _ hd)
      refine ⟨c₂, events₁ ++ events₂, handleAll_cons hcall hrest, ?_⟩
      rw [spansOf_append, hspans]
      simp only [List.flatten_cons, List.flatten_append, List.flatten_nil, List.append_nil,
        List.length_append, reduceCtorEq, if_false]
      omega

/-- After a first read, the client agrees with the publisher's path exactly if it does so on the
others. -/
theorem agrees_cons {r : Readiness} {rs : List Readiness} {data : List UInt8}
    {reads : List (List UInt8)} {c₁ : Client} {events₁ : List ClientEvent}
    (hcall : c.handleReadable r = .ok (c₁, events₁))
    (hsession : c₁.session = (c.session.processInput data).1)
    (hmessages : messagesOf events₁ = (c.session.processInput data).2.1)
    (hspans : spansOf events₁ = [data]) :
    c.Agrees (r :: rs) (data :: reads) ↔ c₁.Agrees rs reads := by
  have hall : (c.session.processAll (data :: reads)).2
      = messagesOf events₁ ++ (c₁.session.processAll reads).2 := by
    rw [Session.processAll_cons, hsession, hmessages]
  constructor
  · rintro ⟨c', events, hrun, hm, hs⟩
    cases hrest : c₁.handleAll rs with
    | error f =>
        simp only [handleAll, hcall, hrest] at hrun
        cases hrun
    | ok q =>
        rw [handleAll_cons hcall hrest] at hrun
        obtain ⟨rfl, rfl⟩ := Prod.mk.inj (Except.ok.inj hrun)
        rw [hall, messagesOf_append, List.append_cancel_left_eq] at hm
        rw [spansOf_append, hspans, List.flatten_append, List.flatten_singleton, List.flatten_cons,
          List.append_cancel_left_eq] at hs
        exact ⟨q.1, q.2, hrest, hm, hs⟩
  · rintro ⟨c', events, hrun, hm, hs⟩
    refine ⟨c', events₁ ++ events, handleAll_cons hcall hrun, ?_, ?_⟩
    · rw [hall, messagesOf_append, hm]
    · rw [spansOf_append, hspans, List.flatten_append, hs, List.flatten_singleton,
        List.flatten_cons]

/-- A client that still holds bytes when a read comes hands them over a second time. -/
theorem Agrees.readBuffer_eq_nil (hconnected : c.connected = true)
    (hdone : c.session.handshake.isDone = true) {rs : List Readiness} {reads : List (List UInt8)}
    (hrs : rs.map Readiness.read = reads.map .ok) (hreads : ∀ data ∈ reads, data ≠ [])
    (hne : reads ≠ []) (h : c.Agrees rs reads) : c.readBuffer = [] := by
  obtain ⟨c', events, hrun, -, hspans⟩ := h
  obtain ⟨c'', events', hrun', hlen⟩ := length_spansOf hconnected hdone hrs hreads
  rw [hrun] at hrun'
  obtain ⟨rfl, rfl⟩ := Prod.mk.inj (Except.ok.inj hrun')
  rw [hspans, if_neg hne] at hlen
  exact List.eq_nil_of_length_eq_zero (by omega)

/-- A parser that holds nothing before the first read holds nothing before every read exactly if it
does so before the others. -/
theorem buffer_before_cons (hparser : c.session.parser.buffer = []) {c₁ : Client}
    {data : List UInt8} {reads : List (List UInt8)}
    (hsession : c₁.session = (c.session.processInput data).1) :
    (∀ before d after, data :: reads = before ++ d :: after →
        (c.session.processAll before).1.parser.buffer = []) ↔
      ∀ before d after, reads = before ++ d :: after →
        (c₁.session.processAll before).1.parser.buffer = [] := by
  constructor
  · intro h before d after hsplit
    have := h (data :: before) d after (by rw [hsplit]; rfl)
    rwa [Session.processAll_cons, ← hsession] at this
  · intro h before d after hsplit
    cases before with
    | nil => exact hparser
    | cons d' before =>
        obtain ⟨rfl, hsplit'⟩ := List.cons.inj hsplit
        rw [Session.processAll_cons, ← hsession]
        exact h before d after hsplit'

/-- **The two paths agree exactly if no read but the last ends inside a chunk**: whenever a read
comes, the parser holds nothing. -/
theorem agrees_iff (hconnected : c.connected = true) (hdone : c.session.handshake.isDone = true)
    (hread : c.readBuffer = []) (hparser : c.session.parser.buffer = []) {rs : List Readiness}
    {reads : List (List UInt8)} (hrs : rs.map Readiness.read = reads.map .ok)
    (hreads : ∀ data ∈ reads, data ≠ []) :
    c.Agrees rs reads ↔ ∀ before data after, reads = before ++ data :: after →
      (c.session.processAll before).1.parser.buffer = [] := by
  induction reads generalizing c rs with
  | nil =>
      obtain rfl := List.map_eq_nil_iff.1 hrs
      constructor
      · intro _ before data after h
        simp at h
      · intro _
        exact ⟨c, [], rfl, rfl, rfl⟩
  | cons data reads ih =>
      obtain ⟨r, rs, rfl, hr, hrs'⟩ := List.map_eq_cons_iff.1 hrs
      obtain ⟨c₁, events₁, hcall, hconnected₁, hsession, hmessages, hspans, hbuffer⟩ :=
        handleReadable_connected hconnected hdone hr (hreads data List.mem_cons_self)
      rw [hread, List.nil_append] at hsession hmessages hspans
      have hdone₁ : c₁.session.handshake.isDone = true := by
        rw [hsession, Session.handshake_processInput hdone]
        exact hdone
      have hreads' : ∀ d ∈ reads, d ≠ [] := fun d hd => hreads d (List.mem_cons_of_mem _ hd)
      -- before the first read the parser holds nothing, so the condition is about the others
      rw [agrees_cons hcall hsession hmessages hspans, buffer_before_cons hparser hsession]
      by_cases hb : c₁.session.parser.buffer = []
      · -- the read ended with a chunk
        have hread₁ : c₁.readBuffer = [] := by
          have := hbuffer hparser
          rw [hb] at this
          exact List.eq_nil_of_length_eq_zero this
        exact ih hconnected₁ hdone₁ hread₁ hb hrs' hreads'
      · -- what is left of the read will be handed over a second time
        cases reads with
        | nil =>
            obtain rfl := List.map_eq_nil_iff.1 hrs'
            constructor
            · intro _ before d after h
              simp at h
            · intro _
              exact ⟨c₁, [], rfl, rfl, rfl⟩
        | cons d reads =>
            constructor
            · intro h
              have hread₁ := h.readBuffer_eq_nil hconnected₁ hdone₁ hrs' hreads'
                (List.cons_ne_nil d reads)
              have hlen := hbuffer hparser
              rw [hread₁, List.length_nil] at hlen
              exact absurd (List.eq_nil_of_length_eq_zero hlen.symm) hb
            · intro h
              exact absurd (h [] d reads rfl) hb

/-- A connected client that has read nothing. -/
def afterHandshake (policy : GrowthPolicy) (handshake : Handshake) : Client where
  socketOpen := true
  session := Session.established policy handshake
  connected := true
  connecting := false
  readBuffer := []

/-- An audio message in one read, and the first byte of a second one in the next. -/
theorem agrees_whole_message :
    (afterHandshake .exact { state := .done }).Agrees
      [⟨.ok [3, 0, 0, 0, 0, 0, 1, 8, 0, 0, 0, 0, 0xAA], .ok 0⟩, ⟨.ok [3], .ok 0⟩]
      [[3, 0, 0, 0, 0, 0, 1, 8, 0, 0, 0, 0, 0xAA], [3]] := by
  refine (agrees_iff rfl (by decide) rfl rfl rfl (by decide)).2 ?_
  intro before data after h
  cases before with
  | nil => rfl
  | cons first before =>
      obtain ⟨rfl, h⟩ := List.cons.inj h
      cases before with
      | nil => decide
      | cons second before => simp at h

/-- An audio message whose header and whose payload come in two reads: the callback gets the first
byte of the header for the payload. -/
theorem diverges :
    ¬ (afterHandshake .exact { state := .done }).Agrees
      [⟨.ok [3, 0, 0, 0, 0, 0, 1, 8, 0, 0, 0, 0], .ok 0⟩, ⟨.ok [0xAA], .ok 0⟩]
      [[3, 0, 0, 0, 0, 0, 1, 8, 0, 0, 0, 0], [0xAA]] := by
  rintro ⟨c', events, hrun, hmessages, -⟩
  have hclient := congrArg (Except.map fun q => messagesOf q.2) hrun
  have hgot : messagesOf events = [⟨8, 0, 0, [3]⟩] :=
    Except.ok.inj (hclient.symm.trans (by decide))
  rw [hgot] at hmessages
  revert hmessages
  decide

end Client

end Rtmp
