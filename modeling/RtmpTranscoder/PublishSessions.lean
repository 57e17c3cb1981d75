/-
**Sessions.**

A session begins when the transcoder is started for a publisher, and lasts until it is started again.
Publishers begin to count time anew, so within each session timestamps should be passed through less
the base that a frame of this very session has set.  But a base that is set is never dropped: a later
session inherits the one of an earlier publisher, and what comes in before it is pushed with timestamp
0.  The law holds in a session exactly if there was no base when it began.

Main definitions:

* `Transcode.Session` — a session of a run;
* `Transcode.PassesThrough` — what is pushed in a session is moved by a base that is set in it.

Main results:

* `Transcode.passes_through_iff` — **timestamps are passed through in a session exactly if the track had
  no base when it began, or nothing is pushed on it**;
* `Transcode.not_passes_through` — a later session need not be moved by any base at all.
-/

import RtmpTranscoder.Synchrony

set_option relaxedAutoImplicit false
set_option autoImplicit false

namespace Transcode

open Machine (Moment Run)
open Rtmp (Message)

/-- The transcoder is started. -/
def TranscoderInput.IsStart : TranscoderInput → Prop
  | .start _ => True
  | _ => False

/-- The steps `first :: during` of a run are a session: it begins with a start of the transcoder and
lasts until the next one, or until the end of the run. -/
structure Session (before : List (Moment Transcoder TranscoderInput TranscoderEvent))
    (first : Moment Transcoder TranscoderInput TranscoderEvent)
    (during after : List (Moment Transcoder TranscoderInput TranscoderEvent))
    (trace : List (Moment Transcoder TranscoderInput TranscoderEvent)) : Prop where
  trace_eq : trace = before ++ (first :: during) ++ after
  begins : first.input.IsStart
  lasts : ∀ m ∈ during, ¬ m.input.IsStart
  ends : ∀ m ∈ after.head?, m.input.IsStart

/-- On a track, the timestamps of what comes in do not decrease. -/
def NonDecreasing (track : Track) (steps : List (Moment Transcoder TranscoderInput TranscoderEvent)) :
    Prop :=
  (steps.filterMap fun m => m.input.timestamp? track).Pairwise (· ≤ ·)

/-- Something is pushed on a track. -/
def PushesAny (track : Track) (steps : List (Moment Transcoder TranscoderInput TranscoderEvent)) :
    Prop :=
  ∃ m ∈ steps, ∃ i timestamp msg, Pushes track m i timestamp msg

/-- All that is pushed on a track is moved by one base. -/
def MovedBy (track : Track) (steps : List (Moment Transcoder TranscoderInput TranscoderEvent))
    (b : UInt32) : Prop :=
  ∀ m ∈ steps, ∀ i timestamp msg, Pushes track m i timestamp msg →
    b ≤ timestamp ∧ msg.timestamp = timestamp - b

/-- If anything is pushed on a track, it is moved by a base which one of these steps sets, for the frame
that comes in then. -/
def PassesThrough (track : Track) (steps : List (Moment Transcoder TranscoderInput TranscoderEvent)) :
    Prop :=
  PushesAny track steps → ∃ m ∈ steps, ∃ b, Transcoder.FixesBase track m b ∧ SetsBase track m b ∧
    MovedBy track steps b

/-! ### Within a session -/

theorem SetsBase.timestamp {track : Track} {m : Moment Transcoder TranscoderInput TranscoderEvent}
    {b : UInt32} (h : SetsBase track m b) : m.input.timestamp? track = some b := by
  cases h with
  | video _ _ _ _ _ => rfl
  | audio _ _ _ _ => rfl

variable {t t' : Transcoder} {track : Track}
  {steps before during after trace : List (Moment Transcoder TranscoderInput TranscoderEvent)}
  {first : Moment Transcoder TranscoderInput TranscoderEvent}

theorem NonDecreasing.le {m m' : Moment Transcoder TranscoderInput TranscoderEvent} {a b : UInt32}
    (h : NonDecreasing track (before ++ m :: after)) (hm' : m' ∈ before ++ [m])
    (ha : m'.input.timestamp? track = some a) (hb : m.input.timestamp? track = some b) : a ≤ b := by
  rcases List.mem_append.1 hm' with hm' | hm'
  · rw [NonDecreasing, List.filterMap_append, List.pairwise_append] at h
    refine h.2.2 a (List.mem_filterMap.2 ⟨m', hm', ha⟩) b ?_
    exact List.mem_filterMap.2 ⟨m, List.mem_cons_self, hb⟩
  · rw [List.mem_singleton.1 hm', hb] at ha
    rw [Option.some.inj ha]
    exact UInt32.le_refl _

/-- **From a state without a base on**, whatever is pushed is moved by the base that is there in the end,
and is set before it is pushed, for something that has come in no later. -/
theorem moved_of_run (hrun : Run Transcoder.machine t steps t') (hwaits : t.Waits)
    (hnone : t.base track = none) (hsorted : NonDecreasing track steps)
    {m : Moment Transcoder TranscoderInput TranscoderEvent} (hm : m ∈ steps) {i : ℕ}
    {timestamp : UInt32} {msg : Message} (hpush : Pushes track m i timestamp msg) :
    ∃ b, t'.base track = some b ∧ b ≤ timestamp ∧ msg.timestamp = timestamp - b := by
  obtain ⟨before, after, rfl⟩ := List.append_of_mem hm
  obtain ⟨hbefore, t₁, hstep, hafter⟩ := hrun.split
  obtain ⟨b, hb, hmoved⟩ := hpush.moved hstep
  have hupto := hbefore.snoc hstep
  obtain ⟨m', hm', -, hsets⟩ := Transcoder.exists_fixesBase hupto hwaits hnone hb
  have hle : b ≤ timestamp := hsorted.le hm' hsets.timestamp hpush.1
  refine ⟨b, Transcoder.base_run hafter (hwaits.run hupto) hb, hle, ?_⟩
  rw [hmoved, outputTimestamp, if_pos hle]

/-- **Timestamps are passed through in a session exactly if the track had no base when it began**, or
nothing is pushed on it. -/
theorem passes_through_iff (hrun : Run Transcoder.machine {} trace t)
    (hsession : Session before first during after trace)
    (hsorted : NonDecreasing track (first :: during)) :
    PassesThrough track (first :: during) ↔
      (PushesAny track (first :: during) → first.state.base track = none) := by
  obtain rfl := hsession.trace_eq
  obtain ⟨t₂, hupto, -⟩ := hrun.of_append
  obtain ⟨t₁, hbefore, hsteps⟩ := hupto.of_append
  have hwaits : t₁.Waits := Transcoder.waits_of_run hbefore
  have hfirst : first.state = t₁ := hsteps.of_cons.1
  constructor
  · intro hpasses hpushes
    obtain ⟨m, hm, b, hfixes, -, -⟩ := hpasses hpushes
    obtain ⟨earlier, later, hsplit⟩ := List.append_of_mem hm
    rw [hsplit] at hsteps
    obtain ⟨hearlier, -⟩ := hsteps.split
    rw [hfirst]
    cases hbase : t₁.base track with
    | none => rfl
    | some b' =>
        -- the base would have stayed
        have hstays := Transcoder.base_run hearlier hwaits hbase
        exact absurd (hfixes.1.symm.trans hstays) (by simp)
  · intro hunset hpushes
    have hnone : t₁.base track = none := hfirst ▸ hunset hpushes
    obtain ⟨m, hm, i, timestamp, msg, hpush⟩ := hpushes
    obtain ⟨b, hb, -⟩ := moved_of_run hsteps hwaits hnone hsorted hm hpush
    obtain ⟨m', hm', hfixes, hsets⟩ := Transcoder.exists_fixesBase hsteps hwaits hnone hb
    refine ⟨m', hm', b, hfixes, hsets, ?_⟩
    intro m hm i timestamp msg hpush
    obtain ⟨b', hb', hmoved⟩ := moved_of_run hsteps hwaits hnone hsorted hm hpush
    obtain rfl := Option.some.inj (hb.symm.trans hb')
    exact hmoved

/-! ### Two sessions -/

/-- A picture is decoded and pushed with timestamp 0. -/
def pushedAtZero : List TranscoderEvent :=
  [.videoDecoder [0, 0, 0, 1, 0x65], .output 0 (.client (.sendMessage (pictureMessage 0)))]

/-- A picture comes in a second after the first publisher has begun to count, one comes in when the
second publisher begins, and one 40 milliseconds later. -/
theorem replay_sessions : ∃ t added first₁ rest₁ picture first₂ rest₂ pictureA pictureB,
    Machine.replay Transcoder.perform {} (outputAdded :: confirming ++ pictureInput 1000 ::
      confirming ++ [pictureInput 0, pictureInput 40]) =
      .ok (t, [added] ++ (first₁ :: (rest₁ ++ [picture])) ++ (first₂ :: (rest₂ ++ [pictureA, pictureB])))
      ∧ first₁.input :: Machine.inputs rest₁ = confirming ∧
      first₂.input :: Machine.inputs rest₂ = confirming ∧
      first₁.state.base .video = none ∧
      (picture.input = pictureInput 1000 ∧ picture.outputs = pushedAtZero) ∧
      (pictureA.input = pictureInput 0 ∧ pictureA.outputs = pushedAtZero) ∧
      (pictureB.input = pictureInput 40 ∧ pictureB.outputs = pushedAtZero) :=
  ⟨_, _, _, [_, _, _, _, _], _, _, [_, _, _, _, _], _, _, rfl, rfl, rfl, rfl, ⟨rfl, rfl⟩, ⟨rfl, rfl⟩,
    ⟨rfl, rfl⟩⟩

variable {m : Moment Transcoder TranscoderInput TranscoderEvent} {timestamp : UInt32}

theorem pushes_atZero (hinput : m.input = pictureInput timestamp) (hout : m.outputs = pushedAtZero) :
    Pushes .video m 0 timestamp (pictureMessage 0) := by
  refine ⟨by rw [hinput]; rfl, ⟨rfl, _, rfl⟩, ?_⟩
  rw [hout]
  exact List.mem_cons_of_mem _ (List.mem_singleton_self _)

theorem begins_confirming (hinputs : first.input :: Machine.inputs steps = confirming) :
    first.input.IsStart ∧ ∀ m ∈ steps, ¬ m.input.IsStart := by
  obtain ⟨hfirst, hrest⟩ := List.cons.inj hinputs
  refine ⟨by rw [hfirst]; exact trivial, fun m hm => ?_⟩
  have hmem : m.input ∈ Machine.inputs steps := List.mem_map_of_mem hm
  rw [hrest] at hmem
  simp only [List.mem_cons, List.not_mem_nil, or_false] at hmem
  rcases hmem with heq | heq | heq | heq | heq <;> rw [heq] <;> exact id

theorem nonDecreasing_confirming (hinputs : first.input :: Machine.inputs steps = confirming)
    (h : NonDecreasing track after) : NonDecreasing track (first :: (steps ++ after)) := by
  have huntimed : (first :: steps).filterMap (fun m => m.input.timestamp? track) = [] := by
    have hnone : ∀ input ∈ confirming, input.timestamp? track = none := by
      intro input hmem
      simp only [confirming, List.mem_cons, List.not_mem_nil, or_false] at hmem
      rcases hmem with rfl | rfl | rfl | rfl | rfl | rfl <;> cases track <;> rfl
    refine List.filterMap_eq_nil_iff.2 fun m hm => hnone _ ?_
    rw [← hinputs]
    exact List.mem_map_of_mem (f := Moment.input) hm
  rw [NonDecreasing, ← List.cons_append, List.filterMap_append, huntimed]
  exact h

/-- The second session is moved by no base at all. -/
theorem not_passes_through :
    ¬ ∀ (trace before during after : List (Moment Transcoder TranscoderInput TranscoderEvent))
      (first : Moment Transcoder TranscoderInput TranscoderEvent) (t : Transcoder),
      Run Transcoder.machine {} trace t → Session before first during after trace →
      (∀ track, NonDecreasing track (first :: during)) →
        ∀ track, PassesThrough track (first :: during) := by
  intro hall
  obtain ⟨t, added, first₁, rest₁, picture, first₂, rest₂, pictureA, pictureB, hreplay, -, hinputs, -, -,
    ⟨hinputA, houtA⟩, hinputB, houtB⟩ := replay_sessions
  obtain ⟨hbegins, hlasts⟩ := begins_confirming hinputs
  have hsession : Session ([added] ++ (first₁ :: (rest₁ ++ [picture]))) first₂
      (rest₂ ++ [pictureA, pictureB]) []
      ([added] ++ (first₁ :: (rest₁ ++ [picture])) ++ (first₂ :: (rest₂ ++ [pictureA, pictureB]))) := by
    refine ⟨by rw [List.append_nil], hbegins, fun m hm => ?_, by simp⟩
    rcases List.mem_append.1 hm with hm | hm
    · exact hlasts m hm
    · rcases List.mem_pair.1 hm with rfl | rfl
      · rw [hinputA]
        exact id
      · rw [hinputB]
        exact id
  have hsorted (track : Track) : NonDecreasing track (first₂ :: (rest₂ ++ [pictureA, pictureB])) := by
    refine nonDecreasing_confirming hinputs ?_
    rw [NonDecreasing, List.filterMap_cons, List.filterMap_cons, hinputA, hinputB]
    cases track with
    | video => decide
    | audio => decide
  have hA : Pushes .video pictureA 0 0 (pictureMessage 0) := pushes_atZero hinputA houtA
  have hB : Pushes .video pictureB 0 40 (pictureMessage 0) := pushes_atZero hinputB houtB
  have hpasses := hall _ _ _ _ _ t (Machine.run_of_replay hreplay) hsession hsorted .video
  obtain ⟨-, -, b, -, -, hmoved⟩ := hpasses ⟨pictureA, by simp, 0, 0, _, hA⟩
  -- the picture that comes in at 0 has no base but 0, and the one at 40 no base but 40
  obtain ⟨hle, -⟩ := hmoved pictureA (by simp) 0 0 _ hA
  obtain ⟨-, heq⟩ := hmoved pictureB (by simp) 0 40 _ hB
  have hzero : b = 0 := by
    rw [UInt32.le_iff_toNat_le] at hle
    rw [← UInt32.toNat_inj]
    exact Nat.le_zero.1 hle
  rw [hzero] at heq
  exact absurd heq (by decide)

/-- In the first session, the picture is pushed with timestamp 0, as it sets the base. -/
theorem passes_through_first : ∃ trace before first during after t,
    Run Transcoder.machine {} trace t ∧ Session before first during after trace ∧
      PushesAny .video (first :: during) ∧ PassesThrough .video (first :: during) := by
  obtain ⟨t, added, first₁, rest₁, picture, first₂, rest₂, pictureA, pictureB, hreplay, hinputs, hinputs₂,
    hnone, ⟨hinput, hout⟩, -⟩ := replay_sessions
  have hrun : Run Transcoder.machine {} _ t := Machine.run_of_replay hreplay
  obtain ⟨hbegins, hlasts⟩ := begins_confirming hinputs
  have hsession : Session [added] first₁ (rest₁ ++ [picture])
      (first₂ :: (rest₂ ++ [pictureA, pictureB]))
      ([added] ++ (first₁ :: (rest₁ ++ [picture])) ++ (first₂ :: (rest₂ ++ [pictureA, pictureB]))) := by
    refine ⟨rfl, hbegins, fun m hm => ?_, fun m hm => ?_⟩
    · rcases List.mem_append.1 hm with hm | hm
      · exact hlasts m hm
      · rw [List.mem_singleton.1 hm, hinput]
        exact id
    · obtain rfl := Option.some.inj hm
      exact (begins_confirming hinputs₂).1
  have hsorted : NonDecreasing .video (first₁ :: (rest₁ ++ [picture])) := by
    refine nonDecreasing_confirming hinputs ?_
    rw [NonDecreasing, List.filterMap_cons, hinput]
    decide
  have hpushes : PushesAny .video (first₁ :: (rest₁ ++ [picture])) :=
    ⟨picture, by simp, 0, 1000, _, pushes_atZero hinput hout⟩
  exact ⟨_, _, _, _, _, t, hrun, hsession, hpushes,
    (passes_through_iff hrun hsession hsorted).2 fun _ => hnone⟩

end Transcode
