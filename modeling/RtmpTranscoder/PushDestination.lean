/-
**Where a stream is pushed to.**

A destination is configured as a URL, and RTMP wants it in two parts: the `tcUrl` of the command
`connect`, and the stream name of the command `publish`.  Both modes cut the URL behind the first
component of its path, which is the application.  They differ in what they publish: the relay sends
the stream name of its publisher, whatever the URL says, and the transcoder sends the last component
of the URL.

Main definitions:

* `Relay.UrlParts` — URLs with an application and something behind it;
* `Relay.tcUrlOf` — the `tcUrl` of a command `connect`;
* `Relay.Announces`, `Relay.Publishes` — what the pushers of a stream send, in relay mode;
* `Transcode.Output.Announces`, `Transcode.Output.Publishes` — what an output sends.

Main results:

* `Relay.announces_iff`, `Transcode.Output.announces_iff` — **the `tcUrl` is the URL up to the
  application**;
* `Relay.publishes_iff`, `Transcode.Output.publishes_iff` — the stream name that is published;
* `Relay.destination_iff` — **the two parts make up the URL exactly if what is behind the application is
  the stream name of the publisher, or a single component**.
-/

import RtmpTranscoder.RelayStreamId

set_option relaxedAutoImplicit false
set_option autoImplicit false

namespace Relay

open Rtmp (CommandMessage Message MessageType)
open Text

/-! ### URLs -/

/-- The parts of a URL whose path has an application and something behind it.  A `std::string` has fewer
than `npos` bytes. -/
structure UrlParts where
  scheme : List UInt8
  hostPort : List UInt8
  app : List UInt8
  rest : List UInt8
  scheme_slash : 47 ∉ scheme
  hostPort_slash : 47 ∉ hostPort
  app_slash : 47 ∉ app
  app_ne_nil : app ≠ []
  fits : scheme.length + hostPort.length + app.length + rest.length + 5 < npos

namespace UrlParts

variable (parts : UrlParts)

/-- The path of the URL. -/
def path : List UInt8 := 47 :: (parts.app ++ 47 :: parts.rest)

/-- The whole URL. -/
def url : List UInt8 := parts.scheme ++ (ascii "://" ++ (parts.hostPort ++ parts.path))

/-- The URL up to the application. -/
def base : List UInt8 :=
  parts.scheme ++ (ascii "://" ++ (parts.hostPort ++ 47 :: parts.app))

/-- The position of the path. -/
def pathStart : ℕ := parts.scheme.length + 3 + parts.hostPort.length

theorem length_url :
    parts.url.length = parts.pathStart + 1 + parts.app.length + 1 + parts.rest.length := by
  simp [url, path, pathStart, ascii]
  omega

theorem url_eq : parts.url = parts.base ++ ascii "/" ++ parts.rest := by
  simp [url, base, path, ascii]

/-- What is sent makes up the URL exactly if the rest is published. -/
theorem append_eq_url_iff (stream : List UInt8) :
    parts.base ++ ascii "/" ++ stream = parts.url ↔ parts.rest = stream := by
  rw [url_eq, List.append_cancel_left_eq]
  exact eq_comm

theorem find_proto : find parts.url (ascii "://") 0 = parts.scheme.length :=
  find_protocol parts.scheme_slash _

theorem find_path : find parts.url (ascii "/") (parts.scheme.length + 3) = parts.pathStart := by
  have hfind := find_append parts.hostPort_slash (parts.scheme ++ ascii "://")
    (parts.app ++ 47 :: parts.rest)
  have hlen : (parts.scheme ++ ascii "://").length = parts.scheme.length + 3 := by
    rw [List.length_append]
    rfl
  rw [hlen, List.append_assoc] at hfind
  exact hfind

theorem pathStart_lt : parts.pathStart < npos := by
  have hfits := parts.fits
  rw [pathStart]
  omega

theorem substr_path : substr parts.url parts.pathStart = parts.path := by
  have hurl : parts.url = (parts.scheme ++ ascii "://" ++ parts.hostPort) ++ parts.path := by
    simp [url]
  have hlen : (parts.scheme ++ ascii "://" ++ parts.hostPort).length = parts.pathStart := by
    rw [List.length_append, List.length_append]
    rfl
  have hfits := parts.fits
  rw [substr, ← hlen, hurl, List.drop_left, List.take_of_length_le]
  simp only [path, List.length_cons, List.length_append]
  omega

theorem find_appEnd : find parts.path (ascii "/") 1 = 1 + parts.app.length :=
  find_append parts.app_slash [47] parts.rest

theorem substr_app : substr parts.path 1 parts.app.length = parts.app :=
  @substr_eq parts.path [47] parts.app (47 :: parts.rest) rfl 1 _ rfl rfl

theorem substr_base : substr parts.url 0 (parts.pathStart + parts.app.length + 1) = parts.base := by
  have hlen : parts.base.length = parts.pathStart + parts.app.length + 1 := by
    simp [base, pathStart, ascii]
    omega
  have hurl := parts.url_eq
  rw [List.append_assoc] at hurl
  exact substr_eq (hurl.trans (List.nil_append _).symm) rfl hlen.symm

end UrlParts

/-- The `tcUrl` of a command `connect`. -/
def tcUrlOf (cmd : CommandMessage) : Option (List UInt8) :=
  match cmd.arguments.head? with
  | some ⟨.object fields, _⟩ =>
      match fields.lookup (ascii "tcUrl") with
      | some (.string tcUrl) => some tcUrl
      | _ => none
  | _ => none

/-! ### In relay mode -/

variable {r : RelaySettings} {streamId : StreamId} {parts : UrlParts} {tcUrl stream : List UInt8}

/-- A pusher of the stream sends this `tcUrl`. -/
def Announces (r : RelaySettings) (streamId : StreamId) (tcUrl : List UInt8) : Prop :=
  ∃ p cmd, p.streamId = streamId ∧ .sendCommand cmd ∈ (handlePusherConnected r p).2 ∧
    tcUrlOf cmd = some tcUrl

/-- A pusher of the stream publishes under this name. -/
def Publishes (streamId : StreamId) (stream : List UInt8) : Prop :=
  ∃ p stale msg, p.streamId = streamId ∧
    .sendCommand (publishCmd stream) ∈ (handlePusherMessage p stale msg).2

/-- **In relay mode the `tcUrl` is the URL up to the application.** -/
theorem announces_iff (h : buildPushUrl r streamId = parts.url) :
    Announces r streamId tcUrl ↔ tcUrl = parts.base := by
  have hfits := parts.fits
  have hstart : sizeAdd parts.scheme.length 3 = parts.scheme.length + 3 :=
    Nat.mod_eq_of_lt (by rw [npos] at hfits; omega)
  have hpath : parts.pathStart ≠ npos := parts.pathStart_lt.ne
  have happ : 1 + parts.app.length ≠ npos := by omega
  have hlen : sizeSub (1 + parts.app.length) 1 = parts.app.length := by
    rw [sizeSub_of_le (by omega)]
    omega
  have hbase : sizeAdd (sizeAdd parts.pathStart parts.app.length) 1 =
      parts.pathStart + parts.app.length + 1 := by
    have hsmall : parts.pathStart + parts.app.length + 1 < 2 ^ 64 := by
      rw [UrlParts.pathStart]
      rw [npos] at hfits
      omega
    rw [sizeAdd, sizeAdd, Nat.mod_eq_of_lt (show parts.pathStart + parts.app.length < 2 ^ 64 by omega),
      Nat.mod_eq_of_lt hsmall]
  have hcalls (p : Pusher) (hp : p.streamId = streamId) :
      (handlePusherConnected r p).2 =
        [.sendCommand (Transcode.connectCmd parts.app parts.base), .flush] := by
    simp only [handlePusherConnected, hp, h, parts.find_proto, hstart, parts.find_path, ne_eq, hpath,
      not_false_eq_true, if_true, parts.substr_path, parts.find_appEnd, happ, hlen, parts.substr_app,
      hbase, parts.substr_base]
    rfl
  have htcUrl : tcUrlOf (Transcode.connectCmd parts.app parts.base) = some parts.base := rfl
  constructor
  · rintro ⟨p, cmd, hp, hsent, hcmd⟩
    rw [hcalls p hp] at hsent
    rcases List.mem_pair.1 hsent with heq | heq
    · cases heq
      exact Option.some.inj (hcmd.symm.trans htcUrl)
    · cases heq
  · rintro rfl
    refine ⟨{ streamId := streamId }, _, rfl, ?_, htcUrl⟩
    rw [hcalls _ rfl]
    exact List.mem_cons_self

/-- A command `publish` says which stream it is about. -/
theorem encode_publishCmd (stream : List UInt8) :
    (publishCmd stream).encode = (Amf0.encodeArray [.string (ascii "publish"), .number 0, .null] ++
      ([2] ++ Bytes.writeU16Be stream.length.toUInt16)) ++
        (stream ++ Amf0.encode (.string (ascii "live"))) := by
  have hstring : Amf0.encode (.string stream) =
      [2] ++ (Bytes.writeU16Be stream.length.toUInt16 ++ stream) := rfl
  simp only [publishCmd, CommandMessage.encode, Amf0.encodeArray, List.flatMap_cons,
    List.flatMap_nil, List.append_nil, List.append_assoc, hstring]

theorem encode_publishCmd_injective {stream stream' : List UInt8}
    (h : (publishCmd stream).encode = (publishCmd stream').encode) : stream = stream' := by
  rw [encode_publishCmd, encode_publishCmd] at h
  have hlen : (Amf0.encodeArray [.string (ascii "publish"), .number 0, .null] ++
      ([2] ++ Bytes.writeU16Be stream.length.toUInt16)).length =
      (Amf0.encodeArray [.string (ascii "publish"), .number 0, .null] ++
        ([2] ++ Bytes.writeU16Be stream'.length.toUInt16)).length := by
    simp only [List.length_append, Bytes.length_writeU16Be]
  exact List.append_cancel_right (List.append_inj h hlen).2

/-- **In relay mode the stream name is that of the publisher.** -/
theorem publishes_iff : Publishes streamId stream ↔ stream = streamId.stream := by
  constructor
  · rintro ⟨p, stale, msg, rfl, hsent⟩
    unfold handlePusherMessage at hsent
    split at hsent
    · cases hparse : CommandMessage.parse stale msg.payload with
      | none =>
          rw [hparse] at hsent
          cases hsent
      | some cmd =>
          simp only [hparse] at hsent
          split_ifs at hsent with hresult hconnect hcreate
          · -- `createStream` is not `publish`
            rcases List.mem_pair.1 hsent with heq | heq
            · have hname : ascii "publish" = ascii "createStream" :=
                congrArg CommandMessage.name (ClientCall.sendCommand.inj heq)
              exact absurd hname (by decide)
            · cases heq
          · rcases List.mem_cons.1 hsent with heq | hsent
            · exact encode_publishCmd_injective
                (congrArg CommandMessage.encode (ClientCall.sendCommand.inj heq))
            · simp at hsent
          · cases hsent
          · cases hsent
    · cases hsent
  · rintro rfl
    refine ⟨{ streamId := streamId }, 0, streamCreated 0, rfl, ?_⟩
    rw [(createsStream_streamCreated 0 0).handlePusherMessage rfl]
    exact List.mem_cons_self

end Relay

namespace Transcode

namespace Output

open Relay (UrlParts createStreamCmd createsStream_streamCreated encode_publishCmd_injective publishCmd
  streamCreated tcUrlOf)
open Rtmp (CommandMessage Message MessageType)
open Text

variable {out : Output} {parts : UrlParts} {tcUrl stream : List UInt8}

/-- An output sends this `tcUrl`. -/
def Announces (out : Output) (tcUrl : List UInt8) : Prop :=
  ∃ cmd, .client (.sendCommand cmd) ∈ out.onConnected.2 ∧ tcUrlOf cmd = some tcUrl

/-- An output publishes under this name. -/
def Publishes (out : Output) (stream : List UInt8) : Prop :=
  ∃ rate stale msg sent, .client (.sendMessage sent) ∈ (out.onMessage rate stale msg).2 ∧
    sent.typeId = MessageType.commandAMF0.code ∧ sent.payload = (publishCmd stream).encode

/-- **In transcode mode, too, the `tcUrl` is the URL up to the application.** -/
theorem announces_iff (h : out.config.rtmpUrl = parts.url) :
    out.Announces tcUrl ↔ tcUrl = parts.base := by
  have hfits := parts.fits
  have hscheme : parts.scheme.length ≠ npos := by omega
  have hpath : parts.pathStart ≠ npos := parts.pathStart_lt.ne
  have happ : 1 + parts.app.length ≠ npos := by omega
  have hlen : 1 + parts.app.length - 1 = parts.app.length := by omega
  have hcalls : out.onConnected.2 =
      [.client (.sendCommand (connectCmd parts.app parts.base)), .client .flush] := by
    simp only [onConnected, h, parts.find_proto, hscheme, parts.find_path, hpath, parts.substr_path,
      parts.find_appEnd, ne_eq, happ, not_false_eq_true, if_true, if_false, hlen, parts.substr_app,
      parts.substr_base, List.isEmpty_iff, parts.app_ne_nil]
  have htcUrl : tcUrlOf (connectCmd parts.app parts.base) = some parts.base := rfl
  constructor
  · rintro ⟨cmd, hsent, hcmd⟩
    rw [hcalls] at hsent
    rcases List.mem_pair.1 hsent with heq | heq
    · cases heq
      exact Option.some.inj (hcmd.symm.trans htcUrl)
    · cases heq
  · rintro rfl
    refine ⟨_, ?_, htcUrl⟩
    rw [hcalls]
    exact List.mem_cons_self

/-- **In transcode mode the stream name is the last component of the URL.** -/
theorem publishes_iff : out.Publishes stream ↔ stream = out.streamName := by
  constructor
  · rintro ⟨rate, stale, msg, sent, hsent, htype, hpayload⟩
    unfold onMessage at hsent
    split at hsent
    · cases hparse : CommandMessage.parse stale msg.payload with
      | none =>
          rw [hparse] at hsent
          cases hsent
      | some cmd =>
          simp only [hparse] at hsent
          split_ifs at hsent with hname hconnect hcreate hstatus hcode
          · simp at hsent
          · cases hcreated : createdStream cmd with
            | none => simp [hcreated] at hsent
            | some k =>
                simp only [hcreated, List.mem_cons, OutputEvent.client.injEq,
                  Relay.ClientCall.sendMessage.injEq, reduceCtorEq, List.not_mem_nil, or_false]
                  at hsent
                rw [hsent] at hpayload
                exact (encode_publishCmd_injective hpayload).symm
          · cases hsent
          · -- what is sent when the stream is confirmed are headers
            simp only [onPublishReady, List.cons_append, List.mem_cons, List.mem_append, reduceCtorEq,
              false_or] at hsent
            rcases hsent with hvideo | haudio
            · split at hvideo
              · simp only [List.mem_cons, OutputEvent.client.injEq,
                  Relay.ClientCall.sendMessage.injEq, reduceCtorEq, List.not_mem_nil, or_false] at hvideo
                rw [hvideo] at htype
                have hcode : MessageType.video.code = MessageType.commandAMF0.code := htype
                exact absurd hcode (by decide)
              · cases hvideo
            · split at haudio
              · simp only [List.mem_cons, OutputEvent.client.injEq,
                  Relay.ClientCall.sendMessage.injEq, reduceCtorEq, List.not_mem_nil, or_false] at haudio
                rw [haudio] at htype
                have hcode : MessageType.audio.code = MessageType.commandAMF0.code := htype
                exact absurd hcode (by decide)
              · cases haudio
          · cases hsent
          · cases hsent
    · cases hsent
  · rintro rfl
    refine ⟨0, 0, streamCreated 0, out.publishMessage (Amf0.toUInt32 0), ?_, rfl, rfl⟩
    rw [onMessage_of_createsStream (createsStream_streamCreated 0 0)]
    exact List.mem_cons_self

theorem streamName_eq {pre last : List UInt8} (hlast : 47 ∉ last)
    (hurl : out.config.rtmpUrl = pre ++ 47 :: last) (hfits : out.config.rtmpUrl.length < npos) :
    out.streamName = last := by
  have hfind : rfind out.config.rtmpUrl 47 = pre.length := by rw [hurl, rfind_append hlast]
  have hlen := congrArg List.length hurl
  rw [List.length_append, List.length_cons] at hlen
  have hsome : pre.length ≠ npos := by omega
  simp only [streamName, hfind, ne_eq, hsome, not_false_eq_true, if_true]
  exact substr_behind hurl hfits

/-- What is behind the application is a single component, or it is not the last one. -/
theorem streamName_eq_iff (h : out.config.rtmpUrl = parts.url) :
    parts.rest = out.streamName ↔ 47 ∉ parts.rest := by
  have hfits := parts.fits
  have hlen : out.config.rtmpUrl.length < npos := by
    rw [h, parts.length_url, UrlParts.pathStart]
    omega
  have hurl : out.config.rtmpUrl = parts.base ++ 47 :: parts.rest := by
    rw [h, parts.url_eq, List.append_assoc]
    rfl
  constructor
  · intro heq hslash
    obtain ⟨last, before, hrest, hlast⟩ :=
      List.eq_append_cons_of_mem (List.mem_reverse.2 hslash)
    have hrest' : parts.rest = before.reverse ++ 47 :: last.reverse := by
      rw [← List.reverse_reverse parts.rest, hrest]
      simp
    have hname : out.streamName = last.reverse := by
      refine @streamName_eq out (parts.base ++ 47 :: before.reverse) _ (by simpa using hlast) ?_ hlen
      rw [hurl, hrest']
      simp
    have hshorter := congrArg List.length (hrest'.symm.trans (heq.trans hname))
    rw [List.length_append, List.length_cons] at hshorter
    omega
  · exact fun hslash => (streamName_eq hslash hurl hlen).symm

end Output

end Transcode

namespace Relay

open Text

/-- What is sent on behalf of a stream makes up the URL it is pushed to. -/
def SendsUrl (announces publishes : List UInt8 → Prop) (url : List UInt8) : Prop :=
  ∀ tcUrl stream, announces tcUrl → publishes stream → tcUrl ++ ascii "/" ++ stream = url

/-- **The two parts make up the URL exactly if what is behind the application is the stream name of the
publisher, in relay mode, or a single component, in transcode mode.** -/
theorem destination_iff (parts : UrlParts) :
    (∀ (r : RelaySettings) (streamId : StreamId), buildPushUrl r streamId = parts.url →
      (SendsUrl (Announces r streamId) (Publishes streamId) (buildPushUrl r streamId) ↔
        parts.rest = streamId.stream)) ∧
    (∀ out : Transcode.Output, out.config.rtmpUrl = parts.url →
      (SendsUrl out.Announces out.Publishes out.config.rtmpUrl ↔ 47 ∉ parts.rest)) := by
  constructor
  · intro r streamId h
    rw [h, ← parts.append_eq_url_iff]
    constructor
    · intro hsends
      exact hsends _ _ ((announces_iff h).2 rfl) (publishes_iff.2 rfl)
    · intro heq tcUrl stream hannounced hpublished
      rw [(announces_iff h).1 hannounced, publishes_iff.1 hpublished]
      exact heq
  · intro out h
    rw [h, ← Transcode.Output.streamName_eq_iff h, ← parts.append_eq_url_iff]
    constructor
    · intro hsends
      exact hsends _ _ ((Transcode.Output.announces_iff h).2 rfl)
        (Transcode.Output.publishes_iff.2 rfl)
    · intro heq tcUrl stream hannounced hpublished
      rw [(Transcode.Output.announces_iff h).1 hannounced,
        Transcode.Output.publishes_iff.1 hpublished]
      exact heq

def exampleSettings : RelaySettings where
  pushUrl := ascii "rtmp://127.0.0.1:1936/live"

/-- The URL of a stream `a` of the application `live`, in parts. -/
def exampleParts : UrlParts where
  scheme := ascii "rtmp"
  hostPort := ascii "127.0.0.1:1936"
  app := ascii "live"
  rest := ascii "live/a"
  scheme_slash := by decide
  hostPort_slash := by decide
  app_slash := by decide
  app_ne_nil := by decide
  fits := by decide

/-- With the default template and a destination without an application, the application is that of the
publisher. -/
theorem sendsUrl_without_application :
    let r : RelaySettings := { pushUrl := ascii "rtmp://127.0.0.1:1936" }
    let streamId : StreamId := ⟨ascii "live", ascii "a"⟩
    SendsUrl (Announces r streamId) (Publishes streamId) (buildPushUrl r streamId) := by
  intro r streamId
  let parts : UrlParts := { exampleParts with rest := ascii "a", fits := by decide }
  exact ((destination_iff parts).1 r streamId (by decide +kernel)).2 rfl

/-- With the default template and a destination that has an application, the stream is published in that
application, under its own name: the application of the publisher is lost. -/
theorem not_sendsUrl : ¬ ∀ (r : RelaySettings) (streamId : StreamId) (parts : UrlParts),
    buildPushUrl r streamId = parts.url →
      SendsUrl (Announces r streamId) (Publishes streamId) (buildPushUrl r streamId) := by
  intro hall
  have hurl : buildPushUrl exampleSettings ⟨ascii "live", ascii "a"⟩ = exampleParts.url := by
    decide +kernel
  have hsends := hall _ _ _ hurl _ (ascii "a") ((announces_iff hurl).2 rfl) (publishes_iff.2 rfl)
  rw [hurl, exampleParts.append_eq_url_iff] at hsends
  exact absurd hsends (by decide)

end Relay
