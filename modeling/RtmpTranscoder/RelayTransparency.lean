/-
**What arrives of what is relayed.**

A pusher that publishes hands every message to its client, which lets its session encode it.  So what
is sent upstream is, one behind the other, what `encode_chunk` makes of the messages, and a message
arrives if it can be encoded in such a way that it is decoded again.  Two kinds cannot.  A message
without a payload makes no chunk at all; and a message with an extended timestamp that takes more than
one chunk is read differently from how it was written.

Main definitions:

* `Relay.relayAll` — messages on their way through `relay_message` and `Client::send_message`;
* `Relay.Transparent` — a fresh parser hands over what was relayed, however the bytes are cut;
* `Relay.Survives` — what arrives.

Main results:

* `Relay.relayAll_ok` — the bytes that are sent are the encodings of the messages;
* `Relay.decodes_of_survives` — messages that survive are decoded as they were encoded;
* `Relay.transparent_of_survives` — messages that survive arrive;
* `Relay.transparent_iff` — **everything that has been relayed has arrived at any time exactly if every
  message survives**.
-/

import RtmpTranscoder.ClientLoop
import RtmpTranscoder.RelayQueue
import RtmpTranscoder.SessionDelivery

set_option relaxedAutoImplicit false
set_option autoImplicit false

namespace Relay

open Incremental
open Rtmp

/-- `RelayManager::relay_message`, and what the client makes of it. -/
def relayOne (policy : RelayPolicy) (p : Pusher) (c : EventClient) (msg : Message) :
    Except Failure (Pusher × EventClient) :=
  let (p, calls) := relayMessage policy p msg
  ((handed calls).foldlM EventClient.sendMessage c).map fun c => (p, c)

/-- A list of messages that are relayed. -/
def relayAll (policy : RelayPolicy) (p : Pusher) (c : EventClient) :
    List Message → Except Failure (Pusher × EventClient)
  | [] => .ok (p, c)
  | msg :: msgs =>
      match relayOne policy p c msg with
      | .error f => .error f
      | .ok (p, c) => relayAll policy p c msgs

/-- What is to arrive of a message. -/
def content (msg : Message) : UInt8 × UInt32 × List UInt8 := (msg.typeId, msg.timestamp, msg.payload)

/-- A fresh parser with the default chunk size that is fed what the messages add to the client's queue,
cut in any way, hands over one message for each of them, in order. -/
def Transparent (policy : RelayPolicy) (p : Pusher) (c : EventClient) (msgs : List Message) : Prop :=
  ∃ p' c' bytes, relayAll policy p c msgs = .ok (p', c') ∧ c'.queue = c.queue ++ bytes ∧
    ∀ reads : List (List UInt8), reads.flatten = bytes →
      ∃ parser chunks, (ChunkParser.new 128).parseAll reads = .ok (parser, chunks) ∧
        (chunks.map Chunk.message).map content = msgs.map content

/-- A message that arrives: it has a payload, and its timestamp is not extended or it is one chunk. -/
def Survives (msg : Message) : Prop :=
  msg.payload ≠ [] ∧ (msg.timestamp.toNat < 0xFFFFFF ∨ msg.payload.length ≤ 128)

/-- A message that a publisher's session can deliver and that is relayed. -/
def Deliverable (msg : Message) : Prop := isMedia msg = true ∧ msg.payload.length ≤ 0xFFFFFF

variable {policy : RelayPolicy} {p : Pusher} {c : EventClient} {msgs : List Message} {msg : Message}

/-! ### The bytes that are sent -/

/-- The encoding of a message by a session that has kept the default chunk size. -/
def encoded (msg : Message) : Except Failure (List UInt8) :=
  encodeChunk (Session.messageHeader msg) msg.payload 128

theorem sendMessage_ok (hc : c.Sound) (hsession : c.hasSession = true) (msg : Message) :
    ∃ c' bytes, c.sendMessage msg = .ok c' ∧ encoded msg = .ok bytes ∧ c'.Sound ∧
      c'.hasSession = true ∧ c'.queue = c.queue ++ bytes := by
  have hsize : 1 ≤ c.session.outChunkSize.toNat := by
    rw [hc.outChunkSize]
    decide
  obtain ⟨bytes, hbytes⟩ := exists_encodeChunk (Session.messageHeader msg) msg.payload hsize
  have hencoded : encoded msg = .ok bytes := by
    rw [encoded, ← hc.outChunkSize]
    exact hbytes
  have hqueue : (c.enqueue bytes).queue = c.queue ++ bytes := by
    simp only [EventClient.queue, EventClient.enqueue, hc.plain.readable_append, List.append_assoc]
  have hsame : (c.enqueue bytes).requestWrite.queue = (c.enqueue bytes).queue ∧
      (c.enqueue bytes).requestWrite.hasSession = c.hasSession := by
    unfold EventClient.requestWrite
    split <;> exact ⟨rfl, rfl⟩
  refine ⟨(c.enqueue bytes).requestWrite, bytes, ?_, hencoded, (hc.enqueue bytes).requestWrite,
    hsame.2.trans hsession, hsame.1.trans hqueue⟩
  rw [EventClient.sendMessage, if_pos hsession, Session.sendMessage, hbytes]
  rfl

/-- **The bytes that are sent are the encodings of the messages**, in order. -/
theorem relayAll_ok (policy : RelayPolicy) (hpublishing : p.publishing = true) (hc : c.Sound)
    (hsession : c.hasSession = true) (hmsgs : ∀ msg ∈ msgs, Deliverable msg) :
    ∃ (c' : EventClient) (encodings : List (List UInt8)), relayAll policy p c msgs = .ok (p, c') ∧
      msgs.map encoded = encodings.map .ok ∧ c'.queue = c.queue ++ encodings.flatten := by
  induction msgs generalizing c with
  | nil => exact ⟨c, [], rfl, rfl, by simp⟩
  | cons msg msgs ih =>
      obtain ⟨c₁, bytes, hsend, hbytes, hc₁, hsession₁, hqueue₁⟩ := sendMessage_ok hc hsession msg
      obtain ⟨c₂, encodings, hrest, hencodings, hqueue₂⟩ := ih hc₁ hsession₁ fun m hm =>
        hmsgs m (List.mem_cons_of_mem _ hm)
      have hone : relayOne policy p c msg = .ok (p, c₁) := by
        have hmedia := (hmsgs msg List.mem_cons_self).1
        simp only [relayOne, relayMessage, hmedia, hpublishing, Bool.not_true, Bool.false_eq_true,
          if_false, if_true]
        have hhanded : handed [.sendMessage msg] = [msg] := rfl
        rw [hhanded, List.foldlM_cons, hsend]
        rfl
      refine ⟨c₂, bytes :: encodings, ?_, ?_, ?_⟩
      · simp only [relayAll, hone]
        exact hrest
      · rw [List.map_cons, List.map_cons, hbytes, hencodings]
      · rw [hqueue₂, hqueue₁, List.flatten_cons, List.append_assoc]

/-! ### What a parser makes of them -/

theorem announced_media (h : isMedia msg = true) : announced msg = none := by
  refine if_neg fun htype => ?_
  rw [isMedia, htype] at h
  exact absurd h (by decide)

theorem Decodes.relay {bytes data : List UInt8} {sent : List Message} (h : Decodes bytes sent 128)
    (hmsg : Deliverable msg) (hsurvives : Survives msg) (hdata : encoded msg = .ok data) :
    Decodes (bytes ++ data) (sent ++ [msg]) 128 := by
  have hpayload : 1 ≤ msg.payload.length := List.length_pos_of_ne_nil hsurvives.1
  have hlen : (Session.messageHeader msg).messageLength.toNat = msg.payload.length :=
    UInt32.toNat_ofNat_of_lt' (Nat.lt_of_le_of_lt hmsg.2 (by decide))
  obtain ⟨data', hencode, hdecodes⟩ := h.encodeChunk (by decide)
    (Session.messageHeader_chunkStreamId msg) hlen ⟨hpayload, hmsg.2⟩ hsurvives.2
  obtain rfl := Except.ok.inj (hdata.symm.trans hencode)
  have hsame : Chunk.message ⟨headerOf (Session.messageHeader msg), msg.payload⟩ = msg := rfl
  have hlast : lastInRange 128 [msg] = 128 := by
    simp [lastInRange, announced_media hmsg.1]
  rwa [hsame, hlast] at hdecodes

/-- **Messages that survive are decoded as they were encoded.** -/
theorem decodes_of_survives (hmsgs : ∀ msg ∈ msgs, Deliverable msg)
    (hsurvive : ∀ msg ∈ msgs, Survives msg) {encodings : List (List UInt8)}
    (hencodings : msgs.map encoded = encodings.map .ok) :
    Decodes encodings.flatten msgs 128 := by
  induction msgs using List.reverseRecOn generalizing encodings with
  | nil =>
      obtain rfl := List.map_eq_nil_iff.1 hencodings.symm
      exact ⟨[], [], _, rfl, by simp, .nil _, fun _ => rfl, rfl, rfl⟩
  | append_singleton msgs msg ih =>
      rw [List.map_append, List.map_singleton] at hencodings
      obtain ⟨before, last, rfl, hbefore, hlast⟩ := List.map_eq_append_iff.1 hencodings.symm
      obtain ⟨data, rfl, hdata⟩ := List.map_eq_singleton_iff.1 hlast
      have hmem : msg ∈ msgs ++ [msg] := List.mem_append_right _ (List.mem_singleton_self _)
      have h := ih (fun m hm => hmsgs m (List.mem_append_left _ hm))
        (fun m hm => hsurvive m (List.mem_append_left _ hm)) hbefore.symm
      have := Decodes.relay h (hmsgs msg hmem) (hsurvive msg hmem) hdata.symm
      simpa using this

/-- **A message that does not survive does not arrive**, whatever the parser has received before, if
it is between messages on every chunk stream. -/
theorem survives_of_decodes {core : ParserCore} (hs : Sane core) (hsize : core.chunkSize = 128)
    (hidle : ∀ c, (core.streams c).bytesReceived = 0) (hmsg : Deliverable msg)
    {data : List UInt8} (hdata : encoded msg = .ok data)
    (hout : ((chunkDecoder.feed (core, []) data).2.map Chunk.message).map content = [content msg]) :
    Survives msg := by
  constructor
  · -- no chunk at all is encoded
    intro hempty
    rw [encoded, hempty] at hdata
    obtain rfl := Except.ok.inj hdata
    rw [feed_nil] at hout
    cases hout
  · by_contra hcond
    rw [not_or, Nat.not_lt, Nat.not_le] at hcond
    obtain ⟨message, hmessages, hcontent⟩ := List.map_eq_singleton_iff.1 hout
    obtain ⟨chunk, hchunks, rfl⟩ := List.map_eq_singleton_iff.1 hmessages
    have hpayload : chunk.payload = msg.payload := congrArg (fun t => t.2.2) hcontent
    have hcsid : 2 ≤ (Session.messageHeader msg).chunkStreamId.toNat ∧
        (Session.messageHeader msg).chunkStreamId.toNat < 64 := by
      simp only [Session.messageHeader]
      split_ifs <;> decide
    have hlen : (Session.messageHeader msg).messageLength.toNat = msg.payload.length :=
      UInt32.toNat_ofNat_of_lt' (Nat.lt_of_le_of_lt hmsg.2 (by decide))
    have hlong : (128 : UInt32).toNat < msg.payload.length := hcond.2
    refine feed_extended_lost hcsid hlen hmsg.2 (by decide) hcond.1 hlong hs hsize hidle hdata
      hchunks ?_
    rw [hpayload]

/-! ### The relay -/

theorem parseAll_fresh (reads : List (List UInt8)) :
    ∃ parser, (ChunkParser.new 128).parseAll reads =
      .ok (parser, (chunkDecoder.feedAll (fresh 128) reads).2) :=
  ⟨_, ChunkParser.parseAll_eq _ reads⟩

/-- If all that has been relayed arrives, and all before the last message survives, so does the last
message. -/
theorem Transparent.survives_last (hc : c.Sound) (hsession : c.hasSession = true)
    (hpublishing : p.publishing = true) (hmsgs : ∀ m ∈ msgs ++ [msg], Deliverable m)
    (h : Transparent policy p c (msgs ++ [msg])) (hbefore : ∀ m ∈ msgs, Survives m) :
    Survives msg := by
  obtain ⟨p', c', bytes, hrelay, hqueue, harrives⟩ := h
  obtain ⟨c'', encodings, hrelay', hencodings, hqueue'⟩ :=
    relayAll_ok policy hpublishing hc hsession hmsgs
  obtain ⟨rfl, rfl⟩ := Prod.mk.inj (Except.ok.inj (hrelay.symm.trans hrelay'))
  obtain rfl := List.append_cancel_left (hqueue.symm.trans hqueue')
  rw [List.map_append, List.map_singleton] at hencodings
  obtain ⟨before, last, rfl, hb, hl⟩ := List.map_eq_append_iff.1 hencodings.symm
  obtain ⟨data, rfl, hdata⟩ := List.map_eq_singleton_iff.1 hl
  -- what is sent for the messages before this one is decoded as them
  obtain ⟨pieces, chunks, core, hbytes, -, hwhole, hidle, hsize, hchunks⟩ :=
    decodes_of_survives (fun m hm => hmsgs m (List.mem_append_left _ hm)) hbefore hb.symm
  obtain ⟨parser, out, hparse, hout⟩ := harrives [(before ++ [data]).flatten] (by simp)
  obtain ⟨parser', hparse'⟩ := parseAll_fresh [(before ++ [data]).flatten]
  obtain ⟨-, rfl⟩ := Prod.mk.inj (Except.ok.inj (hparse.symm.trans hparse'))
  -- so what the parser makes of the rest is this message
  have hfresh : chunkDecoder.feedAll (fresh 128) [(before ++ [data]).flatten]
      = chunkDecoder.feed ((fresh 128).1, []) (before ++ [data]).flatten := by
    rw [chunkDecoder.feedAll_cons, chunkDecoder.feedAll_nil, List.append_nil]
  have hfeed := hwhole.run.feed [] (before ++ [data]).flatten data (by
    rw [List.flatten_append, hbytes, List.flatten_singleton, List.nil_append])
  rw [hfresh, hfeed, List.map_append, List.map_append, hchunks, List.map_append] at hout
  have hmsg := hmsgs msg (List.mem_append_right _ (List.mem_singleton_self _))
  exact survives_of_decodes ((Sane.new 128).run hwhole.run) hsize hidle hmsg hdata.symm
    (List.append_cancel_left hout)

theorem transparent_of_survives (hc : c.Sound) (hsession : c.hasSession = true)
    (hpublishing : p.publishing = true) (hmsgs : ∀ msg ∈ msgs, Deliverable msg)
    (hsurvive : ∀ msg ∈ msgs, Survives msg) : Transparent policy p c msgs := by
  obtain ⟨c', encodings, hrelay, hencodings, hqueue⟩ :=
    relayAll_ok policy hpublishing hc hsession hmsgs
  refine ⟨p, c', encodings.flatten, hrelay, hqueue, fun reads hreads => ?_⟩
  obtain ⟨parser, hparse⟩ := parseAll_fresh reads
  have hdecodes := decodes_of_survives hmsgs hsurvive hencodings
  rw [← hreads] at hdecodes
  refine ⟨parser, _, hparse, ?_⟩
  rw [hdecodes.feedAll]

/-- **Everything that has been relayed has arrived at any time exactly if every message survives.** -/
theorem transparent_iff {growth : GrowthPolicy}
    {trace : List (Machine.Moment EventClient ClientAction LoopOutput)}
    (hrun : Machine.Run (EventClient.machine growth) (.new growth) trace c)
    (hsession : c.hasSession = true) (hpublishing : p.publishing = true)
    (hmsgs : ∀ msg ∈ msgs, Deliverable msg) :
    (∀ relayed, relayed <+: msgs → Transparent policy p c relayed) ↔
      ∀ msg ∈ msgs, Survives msg := by
  have hc := (EventClient.Sound.new growth).run hrun
  constructor
  · intro h
    induction msgs using List.reverseRecOn with
    | nil => simp
    | append_singleton msgs msg ih =>
        have hbefore := ih (fun m hm => hmsgs m (List.mem_append_left _ hm)) fun relayed hpre =>
          h relayed (hpre.trans (List.prefix_append _ _))
        have hlast := (h _ List.prefix_rfl).survives_last hc hsession hpublishing hmsgs hbefore
        intro m hm
        rcases List.mem_append.1 hm with hm | hm
        · exact hbefore m hm
        · rw [List.mem_singleton.1 hm]
          exact hlast
  · intro h relayed hpre
    exact transparent_of_survives hc hsession hpublishing (fun m hm => hmsgs m (hpre.subset hm))
      fun m hm => h m (hpre.subset hm)

/-- The connection of a client succeeds. -/
def connects : ConnectOutcome where
  socket := true
  setNonblocking := true
  connect := true
  add := true
  random := fun _ => 0

/-- A client whose connection is under way. -/
def connectingClient : EventClient := (EventClient.new .exact).connect .exact connects

theorem run_connectingClient :
    ∃ trace, Machine.Run (EventClient.machine .exact) (.new .exact) trace connectingClient :=
  ⟨_, .snoc .nil (show EventClient.perform .exact _ (.connect connects) = _ from rfl)⟩

/-- Two messages, the second with an extended timestamp. -/
theorem transparent_audio : Transparent {} { streamId := {}, publishing := true } connectingClient
    [⟨8, 0, 1, [1, 2]⟩, ⟨8, 0x1000000, 1, [3]⟩] := by
  obtain ⟨trace, hrun⟩ := run_connectingClient
  refine (transparent_iff hrun rfl rfl ?_).2 ?_ _ List.prefix_rfl
  · intro msg hmsg
    rcases List.mem_pair.1 hmsg with rfl | rfl <;> exact ⟨by decide, by decide⟩
  · intro msg hmsg
    rcases List.mem_pair.1 hmsg with rfl | rfl
    · exact ⟨by decide, .inl (by decide)⟩
    · exact ⟨by decide, .inr (by decide)⟩

/-- A message without a payload does not arrive. -/
theorem empty_lost : ¬ ∀ (policy : RelayPolicy) (growth : GrowthPolicy) (p : Pusher)
    (c : EventClient) (msgs : List Message)
    (trace : List (Machine.Moment EventClient ClientAction LoopOutput)),
    Machine.Run (EventClient.machine growth) (.new growth) trace c → c.hasSession = true →
      p.publishing = true → (∀ msg ∈ msgs, Deliverable msg) → Transparent policy p c msgs := by
  intro h
  obtain ⟨trace, hrun⟩ := run_connectingClient
  have hmsgs : ∀ msg ∈ [(⟨8, 0, 1, []⟩ : Message)], Deliverable msg := by
    intro msg hmsg
    rw [List.mem_singleton.1 hmsg]
    exact ⟨by decide, by decide⟩
  have hlost := h {} .exact { streamId := {}, publishing := true } connectingClient _ trace hrun rfl
    rfl hmsgs
  have hsurvives : Survives ⟨8, 0, 1, []⟩ :=
    Transparent.survives_last ((EventClient.Sound.new .exact).run hrun) rfl rfl hmsgs
      (show Transparent _ _ _ ([] ++ [_]) from hlost) (by simp)
  exact hsurvives.1 rfl

end Relay
