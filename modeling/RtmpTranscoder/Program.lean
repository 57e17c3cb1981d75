/-
**The program.**

`main` sets up a relay manager, and in the mode `transcode` a transcoder with the outputs of the command
line, which the manager is given.  From then on the event loop calls back: the manager for its
publishers and its pushers, and the transcoder for the clients of its outputs.  What a handler of the
manager asks of the transcoder is done before the handler goes on.  Nothing comes back from there, so
that it does not matter when it is done, as long as it is done in order.

So a run of the program is a run of the manager and a run of the transcoder, and what is known of either
holds of the program.  What `main` makes of the mode decides what the program may do for the rest of its
life: it pushes only in the mode `relay`, and transcodes only in the mode `transcode`.

Main definitions:

* `Program`, `Program.start`, `Program.main` — what `main` sets up, and when it gives up;
* `Program.perform` — the program as a machine;
* `Program.managerTrace`, `Program.asked` — what the program is to its manager, and to its transcoder.

Main results:

* `Program.run_parts` — **a run of the program is a run of its parts**;
* `Program.modes_exclusive` — **what the program does is what its mode says**;
* `Program.silent_before_publish` — **nothing goes anywhere before a publisher publishes**.
-/

import RtmpTranscoder.CommandLine
import RtmpTranscoder.RelayModes
import RtmpTranscoder.ServerStream
import RtmpTranscoder.VideoDemux

set_option relaxedAutoImplicit false
set_option autoImplicit false

open CommandLine (Config parseArgs)
open Machine (Moment Run Does)
open Relay (Publisher PublisherEvent RelayManager RelayInput RelayOutput RelayPolicy RelaySettings Relays
  TranscoderCall)
open Rtmp (Failure Message parseAddress)
open Text (ascii)
open Transcode (Transcoder TranscoderInput TranscoderEvent StartOutcome VideoOutcome AudioOutcome)

/-- What `main` sets up. -/
structure Program where
  manager : RelayManager
  transcoder : Option Transcoder

/-- What the codecs and the sockets answer, when the transcoder is asked something. -/
structure TranscoderOutcome where
  started : ℕ → StartOutcome
  created : Bool
  video : VideoOutcome
  audio : AudioOutcome

/-- What a handler of the manager asks of the transcoder. -/
def Relay.TranscoderCall.input (o : TranscoderOutcome) : TranscoderCall → TranscoderInput
  | .start => .start o.started
  | .onSourceMetadata width height fps sampleRate channels =>
      .onSourceMetadata width height fps sampleRate channels o.created
  | .onVideoData data timestamp keyframe => .onVideoData data timestamp keyframe o.video
  | .onAudioData data timestamp => .onAudioData data timestamp o.audio

/-- What the event loop calls back.  The `n`-th thing that the transcoder is asked finds `outcomes n`. -/
inductive ProgramInput where
  | relay (i : RelayInput) (outcomes : ℕ → TranscoderOutcome)
  | outputConnected (i : ℕ)
  | outputMessage (i : ℕ) (stale : UInt64) (msg : Message)
  | outputDisconnected (i : ℕ)

/-- What the program does. -/
inductive ProgramOutput where
  | relay (e : RelayOutput)
  | transcoder (e : TranscoderEvent)

namespace Program

/-! ### What `main` does -/

/-- The output of a specification, as `main` passes it on. -/
def outputOf (spec : OutputSpec) : Transcode.Output where
  config :=
    { width := spec.width
      height := spec.height
      videoBitrateKbps := spec.videoBitrateKbps
      audioBitrateKbps := spec.audioBitrateKbps
      rtmpUrl := spec.url }

/-- The loop of `main` over the outputs.  `Transcoder::add_output` never refuses one. -/
def addOutputs (t : Transcoder) : List OutputSpec → Transcoder
  | [] => t
  | spec :: specs => addOutputs { t with outputs := t.outputs ++ [outputOf spec] } specs

/-- `main`, from the configuration up to the event loop; without a result, it returns 1.  `listen` is
what `Server::start` answers. -/
def start (config : Config) (resolve : List UInt8 → Except Failure (List UInt8))
    (listen : List UInt8 → UInt16 → Except Failure Unit) : Option Program :=
  if config.mode = ascii "relay" ∧ config.pushUrl = [] then none
  else if config.mode = ascii "transcode" ∧ config.outputs = [] then none
  else
    let settings : RelaySettings := { policy := { maxPendingBytes := config.maxPendingBytes } }
    let program : Program :=
      if config.mode = ascii "transcode" then
        ⟨.new settings true, some (addOutputs {} config.outputs)⟩
      else if config.mode = ascii "relay" then
        ⟨.new { settings with pushUrl := config.pushUrl, pushTemplate := config.pushTemplate } false,
          none⟩
      else ⟨.new settings false, none⟩
    match parseAddress resolve config.listenAddr with
    | .error _ => none
    | .ok (addr, port) =>
        match listen addr port with
        | .error _ => none
        | .ok _ => some program

/-- `main`, up to the event loop. -/
def main (args : List (List UInt8)) (resolve : List UInt8 → Except Failure (List UInt8))
    (listen : List UInt8 → UInt16 → Except Failure Unit) : Except Failure (Option Program) :=
  (parseArgs {} args).map fun parsed => parsed.result.bind fun config => start config resolve listen

/-! ### The event loop -/

/-- What the manager has asked of the transcoder. -/
def callsOf (out : List RelayOutput) : List TranscoderCall :=
  out.filterMap fun
    | .publisher _ (.transcoder call) => some call
    | _ => none

/-- What the transcoder is asked, with what it finds. -/
def inputsOf (outcomes : ℕ → TranscoderOutcome) (calls : List TranscoderCall) : List TranscoderInput :=
  calls.mapIdx fun n call => call.input (outcomes n)

/-- The transcoder is asked one thing after the other, if there is one. -/
def ask (p : Program) (manager : RelayManager) (out : List RelayOutput)
    (is : List TranscoderInput) : Except Failure (Program × List ProgramOutput) :=
  match p.transcoder with
  | none => .ok (⟨manager, none⟩, out.map .relay)
  | some t =>
      (Machine.replay Transcoder.perform t is).map fun (t, trace) =>
        (⟨manager, some t⟩, out.map .relay ++ (Machine.outputs trace).map .transcoder)

def perform (p : Program) : ProgramInput → Except Failure (Program × List ProgramOutput)
  | .relay i outcomes =>
      match p.manager.perform i with
      | .error f => .error f
      | .ok (manager, out) => p.ask manager out (inputsOf outcomes (callsOf out))
  | .outputConnected i => p.ask p.manager [] [.connected i]
  | .outputMessage i stale msg => p.ask p.manager [] [.message i stale msg]
  | .outputDisconnected i => p.ask p.manager [] [.disconnected i]

def machine : Machine.Step Program ProgramInput ProgramOutput := Machine.ofFun perform

/-! ### The parts of a run -/

/-- What the manager does, among what the program does. -/
def relayed (out : List ProgramOutput) : List RelayOutput :=
  out.filterMap fun
    | .relay e => some e
    | .transcoder _ => none

/-- What the transcoder does, among what the program does. -/
def transcoded (out : List ProgramOutput) : List TranscoderEvent :=
  out.filterMap fun
    | .relay _ => none
    | .transcoder e => some e

/-- A step of the program, as one of its manager. -/
def managerMoment (m : Moment Program ProgramInput ProgramOutput) :
    Option (Moment RelayManager RelayInput RelayOutput) :=
  match m.input with
  | .relay i _ => some ⟨m.state.manager, i, relayed m.outputs⟩
  | _ => none

def managerTrace (trace : List (Moment Program ProgramInput ProgramOutput)) :
    List (Moment RelayManager RelayInput RelayOutput) :=
  trace.filterMap managerMoment

/-- What the transcoder is asked in a step. -/
def askedIn (m : Moment Program ProgramInput ProgramOutput) : List TranscoderInput :=
  match m.input with
  | .relay _ outcomes => inputsOf outcomes (callsOf (relayed m.outputs))
  | .outputConnected i => [.connected i]
  | .outputMessage i stale msg => [.message i stale msg]
  | .outputDisconnected i => [.disconnected i]

/-- What the transcoder is asked. -/
def asked (trace : List (Moment Program ProgramInput ProgramOutput)) : List TranscoderInput :=
  trace.flatMap askedIn

variable {p p' : Program} {i : ProgramInput} {out : List ProgramOutput} {manager : RelayManager}
  {events : List RelayOutput} {is : List TranscoderInput} {t : Transcoder}
  {trace : List (Moment Program ProgramInput ProgramOutput)}

@[simp] theorem relayed_append (l₁ l₂ : List ProgramOutput) :
    relayed (l₁ ++ l₂) = relayed l₁ ++ relayed l₂ := List.filterMap_append ..

@[simp] theorem transcoded_append (l₁ l₂ : List ProgramOutput) :
    transcoded (l₁ ++ l₂) = transcoded l₁ ++ transcoded l₂ := List.filterMap_append ..

theorem relayed_parts (events : List RelayOutput) (more : List TranscoderEvent) :
    relayed (events.map .relay ++ more.map .transcoder) = events := by
  rw [relayed_append, relayed, relayed, List.filterMap_map, List.filterMap_map]
  have hnone : more.filterMap (fun _ => (none : Option RelayOutput)) = [] := by simp
  exact (congrArg₂ (· ++ ·) List.filterMap_some hnone).trans (List.append_nil events)

theorem transcoded_parts (events : List RelayOutput) (more : List TranscoderEvent) :
    transcoded (events.map .relay ++ more.map .transcoder) = more := by
  rw [transcoded_append, transcoded, transcoded, List.filterMap_map, List.filterMap_map]
  have hnone : events.filterMap (fun _ => (none : Option TranscoderEvent)) = [] := by simp
  exact (congrArg₂ (· ++ ·) hnone List.filterMap_some).trans (List.nil_append more)

/-- The transcoder does what it is asked: it is run on these inputs. -/
def Asked (transcoder transcoder' : Option Transcoder) (is : List TranscoderInput)
    (done : List TranscoderEvent) : Prop :=
  (transcoder = none ∧ transcoder' = none ∧ done = []) ∨
    ∃ t t' steps, transcoder = some t ∧ transcoder' = some t' ∧ Run Transcoder.machine t steps t' ∧
      Machine.inputs steps = is ∧ Machine.outputs steps = done

theorem Asked.nil (transcoder : Option Transcoder) : Asked transcoder transcoder [] [] := by
  cases transcoder with
  | none => exact .inl ⟨rfl, rfl, rfl⟩
  | some t => exact .inr ⟨t, t, [], rfl, rfl, .nil, rfl, rfl⟩

theorem Asked.append {t₀ t₁ t₂ : Option Transcoder} {is₁ is₂ : List TranscoderInput}
    {done₁ done₂ : List TranscoderEvent} (h₁ : Asked t₀ t₁ is₁ done₁) (h₂ : Asked t₁ t₂ is₂ done₂) :
    Asked t₀ t₂ (is₁ ++ is₂) (done₁ ++ done₂) := by
  rcases h₁ with ⟨rfl, rfl, rfl⟩ | ⟨t, t', steps, rfl, rfl, hrun, rfl, rfl⟩
  · rcases h₂ with ⟨-, rfl, rfl⟩ | ⟨t, t', steps, hsome, -⟩
    · exact .inl ⟨rfl, rfl, rfl⟩
    · cases hsome
  · rcases h₂ with ⟨hnone, -⟩ | ⟨t₁, t₂, more, hsome, rfl, hrun', rfl, rfl⟩
    · cases hnone
    · obtain rfl := Option.some.inj hsome
      refine .inr ⟨t, t₂, steps ++ more, rfl, rfl, hrun.append hrun', ?_, Machine.outputs_append ..⟩
      rw [Machine.inputs, List.map_append]
      rfl

theorem ask_ok (h : p.ask manager events is = .ok (p', out)) :
    p'.manager = manager ∧ relayed out = events ∧
      Asked p.transcoder p'.transcoder is (transcoded out) := by
  unfold ask at h
  split at h
  · rename_i hnone
    obtain ⟨rfl, rfl⟩ := Prod.mk.inj (Except.ok.inj h)
    have hrelayed := relayed_parts events []
    have htranscoded := transcoded_parts events []
    rw [List.map_nil, List.append_nil] at hrelayed htranscoded
    exact ⟨rfl, hrelayed, .inl ⟨hnone, rfl, htranscoded⟩⟩
  · rename_i t hsome
    cases hreplay : Machine.replay Transcoder.perform t is with
    | error f =>
        rw [hreplay] at h
        cases h
    | ok result =>
        obtain ⟨t', steps⟩ := result
        rw [hreplay] at h
        obtain ⟨rfl, rfl⟩ := Prod.mk.inj (Except.ok.inj h)
        refine ⟨rfl, relayed_parts .., .inr ⟨t, t', steps, hsome, rfl, Machine.run_of_replay hreplay,
          Machine.inputs_of_replay hreplay, ?_⟩⟩
        exact (transcoded_parts ..).symm

/-- **A step of the program** is one of the manager, or nothing to it, and the transcoder does what it is
asked. -/
theorem step_parts (h : machine p i out p') :
    Run RelayManager.machine p.manager (managerMoment ⟨p, i, out⟩).toList p'.manager ∧
      Machine.outputs (managerMoment ⟨p, i, out⟩).toList = relayed out ∧
      Asked p.transcoder p'.transcoder (askedIn ⟨p, i, out⟩) (transcoded out) := by
  have hcallback {is : List TranscoderInput} (hask : p.ask p.manager [] is = .ok (p', out)) :
      Run RelayManager.machine p.manager [] p'.manager ∧
        Machine.outputs ([] : List (Moment RelayManager RelayInput RelayOutput)) = relayed out ∧
        Asked p.transcoder p'.transcoder is (transcoded out) := by
    obtain ⟨hmanager, hrelayed, hasked⟩ := ask_ok hask
    rw [hmanager]
    exact ⟨.nil, hrelayed.symm, hasked⟩
  cases i with
  | relay i outcomes =>
      have hstep : perform p (.relay i outcomes) = .ok (p', out) := h
      rw [perform] at hstep
      split at hstep
      · cases hstep
      · rename_i manager events hperform
        obtain ⟨rfl, rfl, hasked⟩ := ask_ok hstep
        exact ⟨.snoc .nil hperform, List.append_nil _, hasked⟩
  | outputConnected i => exact hcallback h
  | outputMessage i stale msg => exact hcallback h
  | outputDisconnected i => exact hcallback h

theorem managerTrace_snoc (trace : List (Moment Program ProgramInput ProgramOutput))
    (m : Moment Program ProgramInput ProgramOutput) :
    managerTrace (trace ++ [m]) = managerTrace trace ++ (managerMoment m).toList := by
  rw [managerTrace, managerTrace, List.filterMap_append]
  cases h : managerMoment m with
  | none => rw [List.filterMap_cons_none h, List.filterMap_nil, Option.toList_none]
  | some moment => rw [List.filterMap_cons_some h, List.filterMap_nil, Option.toList_some]

theorem asked_snoc (trace : List (Moment Program ProgramInput ProgramOutput))
    (m : Moment Program ProgramInput ProgramOutput) :
    asked (trace ++ [m]) = asked trace ++ askedIn m := by
  simp [asked]

theorem parts_of_run (hrun : Run machine p trace p') :
    Run RelayManager.machine p.manager (managerTrace trace) p'.manager ∧
      Machine.outputs (managerTrace trace) = relayed (Machine.outputs trace) ∧
      Asked p.transcoder p'.transcoder (asked trace) (transcoded (Machine.outputs trace)) := by
  induction hrun with
  | nil => exact ⟨.nil, rfl, .nil _⟩
  | @snoc trace p₁ p₂ i out hrun hstep ih =>
      obtain ⟨ihrun, ihrelayed, ihasked⟩ := ih
      obtain ⟨hrun', hrelayed, hasked⟩ := step_parts hstep
      rw [managerTrace_snoc, Machine.outputs_append, Machine.outputs_snoc, relayed_append,
        transcoded_append, asked_snoc, ihrelayed, hrelayed]
      exact ⟨ihrun.append hrun', rfl, ihasked.append hasked⟩

/-- **A run of the program is a run of its parts.**  The manager does what it would do alone; and the
transcoder is run on what the handlers of the manager ask, and on what the clients of its outputs call
back, in the order in which it happens. -/
theorem run_parts (hrun : Run machine p trace p') (ht : p.transcoder = some t) :
    Run RelayManager.machine p.manager (managerTrace trace) p'.manager ∧
      Machine.outputs (managerTrace trace) = relayed (Machine.outputs trace) ∧
      ∃ t' steps, p'.transcoder = some t' ∧ Run Transcoder.machine t steps t' ∧
        Machine.inputs steps = asked trace ∧
        Machine.outputs steps = transcoded (Machine.outputs trace) := by
  obtain ⟨hmanager, hrelayed, ⟨hnone, -⟩ | ⟨t₀, t', steps, hsome, hsome', hsteps⟩⟩ := parts_of_run hrun
  · rw [ht] at hnone
    cases hnone
  · obtain rfl := Option.some.inj (ht.symm.trans hsome)
    exact ⟨hmanager, hrelayed, t', steps, hsome', hsteps⟩

/-! ### What the mode says -/

theorem addOutputs_eq (specs : List OutputSpec) (t : Transcoder) :
    addOutputs t specs = { t with outputs := t.outputs ++ specs.map outputOf } := by
  induction specs generalizing t with
  | nil => rw [addOutputs, List.map_nil, List.append_nil]
  | cons spec specs ih => rw [addOutputs, ih, List.append_assoc, List.singleton_append, List.map_cons]

theorem start_cases {config : Config} {resolve : List UInt8 → Except Failure (List UInt8)}
    {listen : List UInt8 → UInt16 → Except Failure Unit} (h : start config resolve listen = some p) :
    (config.mode = ascii "transcode" ∧ ∃ settings, settings.pushUrl = [] ∧
        p = ⟨.new settings true, some (addOutputs {} config.outputs)⟩) ∨
      (config.mode = ascii "relay" ∧ ∃ settings, settings.pushUrl = config.pushUrl ∧
        p = ⟨.new settings false, none⟩) ∨
      (config.mode ≠ ascii "transcode" ∧ config.mode ≠ ascii "relay" ∧
        ∃ settings, settings.pushUrl = [] ∧ p = ⟨.new settings false, none⟩) := by
  unfold start at h
  split at h
  · cases h
  · split at h
    · cases h
    · simp only at h
      split at h
      · cases h
      · split at h
        · cases h
        · obtain rfl := Option.some.inj h
          by_cases htranscode : config.mode = ascii "transcode"
          · rw [if_pos htranscode]
            exact .inl ⟨htranscode, _, rfl, rfl⟩
          · rw [if_neg htranscode]
            by_cases hrelay : config.mode = ascii "relay"
            · rw [if_pos hrelay]
              exact .inr (.inl ⟨hrelay, _, rfl, rfl⟩)
            · rw [if_neg hrelay]
              exact .inr (.inr ⟨htranscode, hrelay, _, rfl, rfl⟩)

/-- What `main` has set up has been configured. -/
theorem main_some {args : List (List UInt8)} {resolve : List UInt8 → Except Failure (List UInt8)}
    {listen : List UInt8 → UInt16 → Except Failure Unit}
    (h : main args resolve listen = .ok (some p)) :
    ∃ config, parseArgs {} args = .ok (.config config) ∧ start config resolve listen = some p := by
  unfold main at h
  cases hparse : parseArgs {} args with
  | error f =>
      rw [hparse] at h
      cases h
  | ok parsed =>
      rw [hparse] at h
      have hstart := Except.ok.inj h
      cases parsed with
      | config config => exact ⟨config, rfl, hstart⟩
      | help => cases hstart
      | invalidOutput spec => cases hstart
      | unknown arg => cases hstart

/-- Codecs that refuse everything. -/
def refusing : TranscoderOutcome where
  started _ := ⟨fun _ => .error (.err "getaddrinfo"), false⟩
  created := false
  video := ⟨fun _ => .error 0, fun _ => ⟨fun _ => false, fun _ _ => .error 0, fun _ => .error 0⟩⟩
  audio := ⟨false, fun _ => false, fun _ _ => none, fun _ => ⟨fun _ _ _ => .notOpened, fun _ => .error 0⟩⟩

/-- **A run of the manager is part of a run of the program**, whatever its handlers ask. -/
theorem exists_run_of_manager {m : RelayManager}
    {steps : List (Moment RelayManager RelayInput RelayOutput)}
    (hrun : Run RelayManager.machine p.manager steps m)
    (hsize : ∀ t, p.transcoder = some t → Transcode.LengthSize t.naluLengthSize) :
    ∃ trace p', Run machine p trace p' ∧ relayed (Machine.outputs trace) = Machine.outputs steps := by
  suffices hall : ∃ trace p', Run machine p trace p' ∧
      relayed (Machine.outputs trace) = Machine.outputs steps ∧ p'.manager = m ∧
      ∀ t, p'.transcoder = some t → Transcode.LengthSize t.naluLengthSize by
    obtain ⟨trace, p', hprogram, hrelayed, -, -⟩ := hall
    exact ⟨trace, p', hprogram, hrelayed⟩
  induction hrun with
  | nil => exact ⟨[], p, .nil, rfl, rfl, hsize⟩
  | @snoc steps m₁ m₂ i events _ hstep ih =>
      obtain ⟨trace, p₁, hprogram, hrelayed, rfl, hsize₁⟩ := ih
      have hperform : p₁.perform (.relay i fun _ => refusing) =
          p₁.ask m₂ events (inputsOf (fun _ => refusing) (callsOf events)) := by
        simp only [perform, show p₁.manager.perform i = .ok (m₂, events) from hstep]
      -- the transcoder does whatever it is asked
      obtain ⟨p₂, out, hask, hsize₂⟩ : ∃ p₂ out,
          p₁.ask m₂ events (inputsOf (fun _ => refusing) (callsOf events)) = .ok (p₂, out) ∧
            ∀ t, p₂.transcoder = some t → Transcode.LengthSize t.naluLengthSize := by
        cases ht : p₁.transcoder with
        | none => exact ⟨⟨m₂, none⟩, events.map .relay, by simp only [ask, ht], fun t h => by cases h⟩
        | some t =>
            obtain ⟨moments, t', hrun', hinputs, hsize'⟩ := @Machine.exists_run _ _ _ _ Transcoder.perform
              (fun t => Transcode.LengthSize t.naluLengthSize) (fun _ => True)
              (fun h _ => Transcode.Transcoder.exists_perform h _)
              (inputsOf (fun _ => refusing) (callsOf events)) (fun _ _ => trivial) t (hsize₁ t ht)
            refine ⟨⟨m₂, some t'⟩, events.map .relay ++ (Machine.outputs moments).map .transcoder, ?_,
              fun t₁ h => ?_⟩
            · simp only [ask, ht, ← hinputs, Machine.replay_of_run hrun', Except.map]
            · obtain rfl := Option.some.inj h
              exact hsize'
      obtain ⟨hmanager, hevents, -⟩ := ask_ok hask
      refine ⟨_, p₂, hprogram.snoc (hperform.trans hask), ?_, hmanager, hsize₂⟩
      rw [Machine.outputs_snoc, Machine.outputs_snoc, relayed_append, hrelayed, hevents]

theorem perform_events (m : RelayManager) (id : ℕ) {pub : Publisher} {p₁ : Option Publisher}
    {r : Relays} {mask : Rtmp.EpollEvents} {o : Relay.PublisherOutcome} {out : List PublisherEvent}
    (hpub : m.publishers id = some pub) (hcall : pub.onEvents m.toRelays mask o = .ok (r, p₁, out)) :
    RelayManager.machine m (.events id mask o) (out.map (.publisher id)) (m.put r id p₁) := by
  change m.perform _ = _
  simp only [RelayManager.perform, hpub, hcall]
  rfl

/-- **A publisher connects and sends something**, which is handled behind the handshake. -/
theorem exists_served (settings : RelaySettings) (transcoder : Bool) (data : List UInt8)
    (hlen : data.length ≤ 8192) (hdata : data ≠ []) {Q : List PublisherEvent → Prop}
    (hhandled : ∀ pub : Publisher, pub.Clean → pub.ready = false → pub.streamId = {} →
      ∃ r' pub' out, Relay.handleMessages (RelayManager.new settings transcoder).toRelays pub
        (Relay.readsData data hlen).calls (Relay.listener.processInput data).2.1 = .ok (r', pub', out) ∧
        Q out) :
    ∃ steps m response out, Run RelayManager.machine (.new settings transcoder) steps m ∧ Q out ∧
      Machine.outputs steps = (.handshake response (.ok 3073) :: .chunks Publisher.protocolMessages ::
        .processInput data :: out).map (.publisher 0) := by
  set r := (RelayManager.new settings transcoder).toRelays with hr
  obtain ⟨pub, response, session, hhello, hchallenge, hlistens⟩ := Publisher.exists_listening r
  obtain ⟨session', hlistens', hprocess⟩ :=
    hlistens.processInput_eq (r := r) data (Relay.readsData data hlen).calls
  obtain ⟨r', pub', out, hmessages, hout⟩ := hhandled _ hlistens'.clean rfl rfl
  have hread := @Publisher.onEvents_readable r { Publisher.new .exact with session := session } data
    (Relay.readsData data hlen) rfl hdata
  rw [if_neg (by simp [hlistens.done]), hprocess] at hread
  replace hread := hread.trans (congrArg (Except.map _) hmessages)
  set m₁ : RelayManager := { RelayManager.new settings transcoder with
    next := 1
    publishers := Function.update (fun _ => none) 0 (some (Publisher.new .exact)) } with hm₁
  have haccept : RelayManager.machine (.new settings transcoder) (.accept .exact) [] m₁ := rfl
  have h₁ := perform_events m₁ 0 rfl hhello
  let m₂ := m₁.put r 0 (some pub)
  have h₂ := perform_events m₂ 0 RelayManager.put_publishers_self hchallenge
  let m₃ := m₂.put r 0 (some { Publisher.new .exact with session := session })
  have h₃ := perform_events m₃ 0 RelayManager.put_publishers_self hread
  refine ⟨_, _, response, out, (((Run.nil.snoc haccept).snoc h₁).snoc h₂).snoc h₃, hout, ?_⟩
  simp only [Machine.outputs_snoc]
  rfl

def relayArgs : List (List UInt8) := [ascii "--mode", ascii "relay", ascii "--push-url", ascii "rtmp://h"]

/-- The arguments of a program that transcodes, for one output. -/
def transcodeArgs : List (List UInt8) :=
  [ascii "--mode", ascii "transcode", ascii "--output", ascii "low:320x240@500k,rtmp://h/l/s"]

def relaying : Program := ⟨.new { pushUrl := ascii "rtmp://h" } false, none⟩

def transcoding : Program :=
  ⟨.new {} true, some (addOutputs {} [⟨ascii "low", 320, 240, 500, 64, ascii "rtmp://h/l/s"⟩])⟩

theorem parseAddress_default :
    parseAddress .ok (ascii "0.0.0.0:1935") = .ok (ascii "0.0.0.0", 1935) := by
  decide +kernel

theorem parseArgs_relayArgs : parseArgs {} relayArgs =
    .ok (.config { mode := ascii "relay", pushUrl := ascii "rtmp://h" }) := by
  decide +kernel

theorem parseArgs_transcodeArgs : parseArgs {} transcodeArgs = .ok (.config
    { mode := ascii "transcode"
      outputs := [⟨ascii "low", 320, 240, 500, 64, ascii "rtmp://h/l/s"⟩] }) := by
  decide +kernel

theorem main_relayArgs : main relayArgs .ok (fun _ _ => .ok ()) = .ok (some relaying) := by
  have hurl : ascii "rtmp://h" ≠ [] := by decide
  have htranscode : ascii "relay" ≠ ascii "transcode" := by decide
  rw [main, parseArgs_relayArgs]
  simp only [Except.map, CommandLine.Parsed.result, Option.bind_some, start, parseAddress_default, hurl,
    htranscode, and_false, false_and, if_true, if_false]
  rfl

theorem main_transcodeArgs : main transcodeArgs .ok (fun _ _ => .ok ()) = .ok (some transcoding) := by
  have hrelay : ascii "transcode" ≠ ascii "relay" := by decide
  rw [main, parseArgs_transcodeArgs]
  simp only [Except.map, CommandLine.Parsed.result, Option.bind_some, start, parseAddress_default, hrelay,
    List.cons_ne_nil, and_false, false_and, if_true, if_false]
  rfl

theorem lengthSize_transcoding (h : transcoding.transcoder = some t) :
    Transcode.LengthSize t.naluLengthSize := by
  obtain rfl := Option.some.inj h
  exact Transcode.Transcoder.lengthSize_of_run (.snoc .nil rfl : Run Transcoder.machine {}
    [⟨{}, .addOutput (outputOf ⟨ascii "low", 320, 240, 500, 64, ascii "rtmp://h/l/s"⟩).config, []⟩] _)

/-- A video message, as it is sent. -/
def frameBytes : List UInt8 := [3, 0, 0, 0, 0, 0, 1, 9, 1, 0, 0, 0, 0x17]

/-- The command that publishes `s`, as it is sent. -/
def publishBytes : List UInt8 :=
  [3, 0, 0, 0, 0, 0, 31, 20, 1, 0, 0, 0] ++ (Relay.publishCmd (ascii "s")).encode

theorem listener_frameBytes : (Relay.listener.processInput frameBytes).2.1 = [Relay.frame] := by
  decide +kernel

theorem listener_publishBytes : (Relay.listener.processInput (publishBytes ++ frameBytes)).2.1 =
    [Relay.publishMessage (ascii "s"), Relay.frame] := by
  decide +kernel

/-- A publisher publishes `s`, and sends media in the same read. -/
theorem handleMessages_publish {r r' : Relays} {pub : Publisher} {calls : ℕ → Relay.CallOutcome}
    {started : List PublisherEvent} (h : pub.Sound) (hnew : pub.streamId = {})
    (hstart : Relay.startRelaying r (calls 0) Relay.sharedId = .ok (r', started)) :
    ∃ pub' out, pub'.streamId = Relay.sharedId ∧
      Relay.handleMessages r pub calls [Relay.publishMessage (ascii "s"), Relay.frame] =
        .ok ((Relay.handlePublisherMedia r' pub' Relay.frame).1, pub',
          .message (Relay.publishMessage (ascii "s")) :: (out ++ started) ++
            .message Relay.frame :: (Relay.handlePublisherMedia r' pub' Relay.frame).2) := by
  have hid : { pub.streamId with stream := ascii "s" } = Relay.sharedId := by
    rw [hnew]
    rfl
  obtain ⟨pub', out, hmessage, ⟨-, hready, hstream⟩, -⟩ := Relay.handlePublisherMessage_publish h
    (Relay.commandOf_publishMessage (by decide) (calls 0)) rfl rfl (hid ▸ hstart)
  have hframe : Relay.handlePublisherMessage r' pub' (calls 1) Relay.frame =
      .ok ((Relay.handlePublisherMedia r' pub' Relay.frame).1, pub',
        (Relay.handlePublisherMedia r' pub' Relay.frame).2) := by
    rw [Relay.handlePublisherMessage, if_neg (by decide), if_pos hready]
  refine ⟨pub', out, hstream.trans hid, ?_⟩
  simp only [Relay.handleMessages, hmessage, hframe, bind, Except.bind, pure, Except.pure,
    List.append_nil]

/-- A publisher publishes and sends media, and the transcoder is asked to start and to take them. -/
theorem exists_run_transcoding : ∃ trace p', Run machine transcoding trace p' ∧
    .publisher 0 (.published Relay.sharedId none) ∈ relayed (Machine.outputs trace) ∧
    .publisher 0 (.transcoder (.onVideoData [0x17] 0 true)) ∈ relayed (Machine.outputs trace) := by
  obtain ⟨steps, m, response, out, hrun, ⟨hpublished, hvideo⟩, hout⟩ := exists_served {} true
    (publishBytes ++ frameBytes) (by decide) (by decide)
    (Q := fun out => .published Relay.sharedId none ∈ out ∧
      .transcoder (.onVideoData [0x17] 0 true) ∈ out) fun pub hclean _ hnew => by
        rw [listener_publishBytes]
        obtain ⟨pub', out, -, hmessages⟩ := handleMessages_publish hclean.sound hnew
          (show Relay.startRelaying (RelayManager.new {} true).toRelays _ Relay.sharedId = .ok _ from rfl)
        have hmedia : (Relay.handlePublisherMedia (RelayManager.new {} true).toRelays pub'
            Relay.frame).2 = [.transcoder (.onVideoData [0x17] 0 true)] := rfl
        rw [hmedia] at hmessages
        exact ⟨_, _, _, hmessages, by simp, by simp⟩
  obtain ⟨trace, p', hprogram, hrelayed⟩ :=
    exists_run_of_manager (p := transcoding) hrun fun t ht => lengthSize_transcoding ht
  refine ⟨trace, p', hprogram, ?_⟩
  rw [hrelayed, hout]
  exact ⟨List.mem_map_of_mem (by simp [hpublished]), List.mem_map_of_mem (by simp [hvideo])⟩

/-- A publisher publishes and sends media, and a pusher is created and given them. -/
theorem exists_run_relaying : ∃ trace p' opened calls, Run machine relaying trace p' ∧
    .publisher 0 (.published Relay.sharedId (some opened)) ∈ relayed (Machine.outputs trace) ∧
    .publisher 0 (.relayed Relay.sharedId Relay.frame calls) ∈ relayed (Machine.outputs trace) := by
  obtain ⟨⟨pusher, opened⟩, hcreate⟩ := Option.isSome_iff_exists.1
    (by decide : (Relay.createPusher { pushUrl := ascii "rtmp://h" } .ok Relay.sharedId).isSome = true)
  obtain ⟨steps, m, response, out, hrun, ⟨hpublished, calls, hmedia⟩, hout⟩ :=
    exists_served { pushUrl := ascii "rtmp://h" } false
      (publishBytes ++ frameBytes) (by decide) (by decide)
      (Q := fun out => .published Relay.sharedId (some opened) ∈ out ∧
        ∃ calls, .relayed Relay.sharedId Relay.frame calls ∈ out) fun pub hclean _ hnew => by
          rw [listener_publishBytes]
          have hstart := @Relay.startRelaying_of_none _
            (RelayManager.new { pushUrl := ascii "rtmp://h" } false).toRelays ⟨0, .ok, false⟩ _ _ rfl rfl hcreate
          obtain ⟨pub', out, hid, hmessages⟩ :=
            @handleMessages_publish _ _ pub (fun _ => ⟨0, .ok, false⟩) _ hclean.sound hnew hstart
          refine ⟨_, _, _, hmessages, by simp, ?_⟩
          simp [Relay.handlePublisherMedia, hid, RelayManager.new]
  obtain ⟨trace, p', hprogram, hrelayed⟩ :=
    exists_run_of_manager (p := relaying) hrun fun t ht => by cases ht
  refine ⟨trace, p', opened, calls, hprogram, ?_⟩
  rw [hrelayed, hout]
  exact ⟨List.mem_map_of_mem (by simp [hpublished]), List.mem_map_of_mem (by simp [hmedia])⟩

/-! ### What the mode says -/

/-- **What the program does is what its mode says.**  Nothing is asked of a transcoder, and none does
anything, in any mode but `transcode`; and nothing is pushed, nor any client asked to, in any mode but
`relay`. -/
theorem modes_exclusive {args : List (List UInt8)} {resolve : List UInt8 → Except Failure (List UInt8)}
    {listen : List UInt8 → UInt16 → Except Failure Unit}
    (h : main args resolve listen = .ok (some p)) (hrun : Run machine p trace p') :
    ∃ config, parseArgs {} args = .ok (.config config) ∧
      (config.mode ≠ ascii "transcode" →
        (∀ e ∈ relayed (Machine.outputs trace), ¬ e.IsTranscoding) ∧
          transcoded (Machine.outputs trace) = []) ∧
      (config.mode ≠ ascii "relay" → ∀ e ∈ relayed (Machine.outputs trace), ¬ e.IsPush) := by
  obtain ⟨config, hparse, hstart⟩ := main_some h
  obtain ⟨hmanager, hrelayed, hasked⟩ := parts_of_run hrun
  have hconfined := Relay.confined_of_run hmanager
  rw [hrelayed] at hconfined
  refine ⟨config, hparse, fun hmode => ?_, fun hmode => ?_⟩
  · have hnone : p.manager.transcoder = false ∧ p.transcoder = none := by
      rcases start_cases hstart with ⟨htranscode, -⟩ | ⟨-, settings, -, rfl⟩ | ⟨-, -, settings, -, rfl⟩
      · exact absurd htranscode hmode
      · exact ⟨rfl, rfl⟩
      · exact ⟨rfl, rfl⟩
    refine ⟨hconfined.untranscoded hnone.1, ?_⟩
    rcases hasked with ⟨-, -, hdone⟩ | ⟨t, t', steps, hsome, -⟩
    · exact hdone
    · rw [hnone.2] at hsome
      cases hsome
  · have hpushless : Relay.Pushless p.manager.toRelays := by
      rcases start_cases hstart with ⟨-, settings, hurl, rfl⟩ | ⟨hrelay, -⟩ |
        ⟨-, -, settings, hurl, rfl⟩
      · exact ⟨.inl rfl, fun _ => rfl⟩
      · exact absurd hrelay hmode
      · exact ⟨.inr hurl, fun _ => rfl⟩
    exact (hconfined.pushless hpushless).2

/-- A publisher publishes and sends media, to a program that transcodes and to one that pushes. -/
theorem modes_exclusive_published :
    (∃ trace p', Run machine transcoding trace p' ∧
      .publisher 0 (.published Relay.sharedId none) ∈ relayed (Machine.outputs trace) ∧
      .publisher 0 (.transcoder (.onVideoData [0x17] 0 true)) ∈ relayed (Machine.outputs trace) ∧
      ∀ e ∈ relayed (Machine.outputs trace), ¬ e.IsPush) ∧
    ∃ trace p' opened calls, Run machine relaying trace p' ∧
      .publisher 0 (.published Relay.sharedId (some opened)) ∈ relayed (Machine.outputs trace) ∧
      .publisher 0 (.relayed Relay.sharedId Relay.frame calls) ∈ relayed (Machine.outputs trace) ∧
      (∀ e ∈ relayed (Machine.outputs trace), ¬ e.IsTranscoding) ∧
        transcoded (Machine.outputs trace) = [] := by
  obtain ⟨trace₁, p₁, hrun₁, hpublished₁, hvideo⟩ := exists_run_transcoding
  obtain ⟨trace₂, p₂, opened, calls, hrun₂, hpublished₂, hrelayed⟩ := exists_run_relaying
  obtain ⟨config₁, hparse₁, -, hpush⟩ := modes_exclusive main_transcodeArgs hrun₁
  obtain ⟨config₂, hparse₂, htranscoding, -⟩ := modes_exclusive main_relayArgs hrun₂
  obtain rfl := CommandLine.Parsed.config.inj (Except.ok.inj (parseArgs_transcodeArgs.symm.trans hparse₁))
  obtain rfl := CommandLine.Parsed.config.inj (Except.ok.inj (parseArgs_relayArgs.symm.trans hparse₂))
  exact ⟨⟨trace₁, p₁, hrun₁, hpublished₁, hvideo, hpush (by decide)⟩,
    trace₂, p₂, opened, calls, hrun₂, hpublished₂, hrelayed, htranscoding (by decide)⟩

/-! ### Before `publish` -/

/-- An output has no connection, so that nothing is called back. -/
def Dormant (t : Transcoder) : Prop := ∀ out ∈ t.outputs, out.socketOpen = false

theorem Dormant.listening (h : Dormant t) (i : ℕ) : t.listening i = none := by
  rw [Transcoder.listening]
  cases hout : t.outputs[i]? with
  | none => rfl
  | some out =>
      have hclosed := h out (List.mem_of_getElem? hout)
      rw [Option.filter_some, hclosed]
      rfl

/-- A call back from a client. -/
def IsCallback : TranscoderInput → Prop
  | .connected _ | .message .. | .disconnected _ => True
  | _ => False

theorem Dormant.perform (h : Dormant t) {i : TranscoderInput} (hi : IsCallback i) :
    t.perform i = .ok (t, []) := by
  have hcallback (i : ℕ) (f : Transcode.Output → Transcode.Output × List Transcode.OutputEvent) :
      t.callback i f = (t, []) := by
    rw [Transcoder.callback, h.listening i]
  cases i with
  | connected i => exact congrArg Except.ok (hcallback i _)
  | disconnected i => exact congrArg Except.ok (hcallback i _)
  | message i stale msg =>
      have hnot : ¬ ((t.listening i).isSome = true ∧
          Transcode.isPublishConfirmation stale msg = true) := by
        rw [h.listening i]
        exact fun hsome => Bool.false_ne_true hsome.1
      change Except.ok (t.onMessage i stale msg) = _
      rw [Transcoder.onMessage, if_neg hnot, hcallback]
  | addOutput config => exact hi.elim
  | start o => exact hi.elim
  | stop => exact hi.elim
  | onSourceMetadata width height fps sampleRate channels created => exact hi.elim
  | onVideoData data timestamp keyframe o => exact hi.elim
  | onAudioData data timestamp o => exact hi.elim

theorem Dormant.run (h : Dormant t) {t' : Transcoder}
    {steps : List (Moment Transcoder TranscoderInput TranscoderEvent)}
    (hrun : Run Transcoder.machine t steps t') (hinputs : ∀ i ∈ Machine.inputs steps, IsCallback i) :
    t' = t ∧ Machine.outputs steps = [] := by
  induction hrun with
  | nil => exact ⟨rfl, rfl⟩
  | @snoc steps t₁ t₂ i out _ hstep ih =>
      rw [Machine.inputs_snoc] at hinputs
      obtain ⟨rfl, hout⟩ := ih fun j hj => hinputs j (List.mem_append_left _ hj)
      have hperform := h.perform (hinputs i (List.mem_append_right _ (List.mem_singleton_self _)))
      obtain ⟨rfl, rfl⟩ := Prod.mk.inj (Except.ok.inj (hperform.symm.trans hstep))
      rw [Machine.outputs_snoc, hout]
      exact ⟨rfl, rfl⟩

theorem dormant_addOutputs (specs : List OutputSpec) : Dormant (addOutputs {} specs) := by
  rw [addOutputs_eq]
  intro out hout
  obtain ⟨spec, -, rfl⟩ := List.mem_map.1 hout
  rfl

theorem callsOf_eq_nil (h : ∀ e ∈ events, ¬ e.IsTranscoding) : callsOf events = [] := by
  refine List.filterMap_eq_nil_iff.2 fun e he => ?_
  cases e with
  | pusher streamId calls => rfl
  | publisher id e =>
      cases e with
      | transcoder call => exact absurd trivial (h _ he)
      | _ => rfl

theorem isCallback_asked (h : ∀ e ∈ relayed (Machine.outputs trace), ¬ e.IsTranscoding) :
    ∀ i ∈ asked trace, IsCallback i := by
  intro i hi
  obtain ⟨m, hm, hasked⟩ := List.mem_flatMap.1 hi
  cases hinput : m.input with
  | relay input outcomes =>
      have hnone : callsOf (relayed m.outputs) = [] := by
        refine callsOf_eq_nil fun e he => h e ?_
        obtain ⟨e', he', hsome⟩ := List.mem_filterMap.1 he
        exact List.mem_filterMap.2 ⟨e', List.mem_flatMap.2 ⟨m, hm, he'⟩, hsome⟩
      rw [askedIn, hinput] at hasked
      simp only [hnone, inputsOf, List.mapIdx_nil, List.not_mem_nil] at hasked
  | outputConnected j =>
      rw [askedIn, hinput] at hasked
      rw [List.mem_singleton.1 hasked]
      trivial
  | outputMessage j stale msg =>
      rw [askedIn, hinput] at hasked
      rw [List.mem_singleton.1 hasked]
      trivial
  | outputDisconnected j =>
      rw [askedIn, hinput] at hasked
      rw [List.mem_singleton.1 hasked]
      trivial

/-- **Nothing goes anywhere before a publisher publishes.**  Until a `publish` is answered, whatever else
comes in, no pusher is created and no client is asked anything, the transcoder is not asked anything, and
neither its decoders nor its outputs do anything. -/
theorem silent_before_publish {args : List (List UInt8)}
    {resolve : List UInt8 → Except Failure (List UInt8)}
    {listen : List UInt8 → UInt16 → Except Failure Unit}
    (h : main args resolve listen = .ok (some p)) (hrun : Run machine p trace p')
    (hnone : ∀ id streamId created,
      .relay (.publisher id (.published streamId created)) ∉ Machine.outputs trace) :
    (∀ e ∈ relayed (Machine.outputs trace), ¬ e.IsPush ∧ ¬ e.IsTranscoding) ∧
      transcoded (Machine.outputs trace) = [] := by
  obtain ⟨config, -, hstart⟩ := main_some h
  obtain ⟨hmanager, hrelayed, hasked⟩ := parts_of_run hrun
  have hstarts : p.manager.Unpublished ∧ ∀ t, p.transcoder = some t → Dormant t := by
    rcases start_cases hstart with ⟨-, settings, -, rfl⟩ | ⟨-, settings, -, rfl⟩ |
      ⟨-, -, settings, -, rfl⟩
    · refine ⟨⟨fun _ => rfl, fun _ _ hpub => nomatch hpub⟩, fun t ht => ?_⟩
      obtain rfl := Option.some.inj ht
      exact dormant_addOutputs config.outputs
    · exact ⟨⟨fun _ => rfl, fun _ _ hpub => nomatch hpub⟩, fun _ ht => nomatch ht⟩
    · exact ⟨⟨fun _ => rfl, fun _ _ hpub => nomatch hpub⟩, fun _ ht => nomatch ht⟩
  obtain ⟨-, hquiet⟩ := Relay.unpublished_of_run hmanager hstarts.1 fun e he hpublished => by
    obtain ⟨id, streamId, created, rfl⟩ := hpublished
    rw [hrelayed] at he
    obtain ⟨e', he', hsome⟩ := List.mem_filterMap.1 he
    cases e' with
    | relay e'' =>
        obtain rfl := Option.some.inj hsome
        exact hnone id streamId created he'
    | transcoder e'' => cases hsome
  rw [hrelayed] at hquiet
  refine ⟨hquiet, ?_⟩
  rcases hasked with ⟨-, -, hdone⟩ | ⟨t, t', steps, hsome, -, hsteps, hinputs, hdone⟩
  · exact hdone
  · rw [← hdone]
    refine ((hstarts.2 t hsome).run hsteps ?_).2
    rw [hinputs]
    exact isCallback_asked fun e he => (hquiet e he).2

/-- A publisher sends media before it publishes. -/
theorem silent_before_publish_frame : ∃ trace p', Run machine transcoding trace p' ∧
    .publisher 0 (.message Relay.frame) ∈ relayed (Machine.outputs trace) ∧
    (∀ e ∈ relayed (Machine.outputs trace), ¬ e.IsPush ∧ ¬ e.IsTranscoding) ∧
      transcoded (Machine.outputs trace) = [] := by
  obtain ⟨steps, m, response, out, hrun, rfl, hout⟩ := exists_served {} true
    frameBytes (by decide) (by decide) (Q := fun out => out = [.message Relay.frame])
    fun pub _ hready _ => by
      have hignored (r : Relays) (o : Relay.CallOutcome) :
          Relay.handlePublisherMessage r pub o Relay.frame = .ok (r, pub, []) := by
        rw [Relay.handlePublisherMessage, if_neg (by decide), if_neg (by simp [hready])]
      rw [listener_frameBytes]
      exact ⟨_, pub, _, by simp only [Relay.handleMessages, hignored]; rfl, rfl⟩
  obtain ⟨trace, p', hprogram, hrelayed⟩ :=
    exists_run_of_manager (p := transcoding) hrun fun t ht => lengthSize_transcoding ht
  rw [hout] at hrelayed
  obtain ⟨hquiet, hnothing⟩ := silent_before_publish main_transcodeArgs hprogram
    fun id streamId created hmem => by
      have hpublished : .publisher id (.published streamId created) ∈ relayed (Machine.outputs trace) :=
        List.mem_filterMap.2 ⟨_, hmem, rfl⟩
      rw [hrelayed] at hpublished
      simp at hpublished
  refine ⟨trace, p', hprogram, ?_, hquiet, hnothing⟩
  rw [hrelayed]
  exact List.mem_map_of_mem (by simp)

end Program
