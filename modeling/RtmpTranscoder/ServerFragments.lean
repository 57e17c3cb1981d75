/-
**Where the handshake of a publisher is cut.**

The callback of a publisher does not collect what it reads: each read has to hold what the handshake
waits for, and what it has behind that is given to the session only if the handshake is done.  So
whether a publisher is served depends on where its bytes are cut.  If its handshake comes in other
pieces than the callback takes, it is removed, or some of what follows is lost.

Main definitions:

* `Relay.processed` — what the session of a connection is given;
* `Relay.Tolerates` — the handshake is carried out, and the session is given what follows;
* `Relay.TakesHandshake` — reads that the callback can take a handshake out of.

Main results:

* `Relay.run_done` — behind the handshake, the session is given every read;
* `Relay.tolerates_answered` — what is left of a first read that has been answered is lost;
* `Relay.tolerates_iff` — **a handshake is tolerated exactly in one read or in two of the right
  lengths**.
-/

import RtmpTranscoder.ServerHandshake

set_option relaxedAutoImplicit false
set_option autoImplicit false

namespace Relay

open Publisher
open Rtmp (Failure Session GrowthPolicy Handshake)
open Rtmp.Handshake (ClientHello clientChallenge)

/-- What the session of a connection is given. -/
def processed (out : List PublisherEvent) : List UInt8 :=
  out.flatMap fun
    | .processInput data => data
    | _ => []

@[simp] theorem processed_nil : processed [] = [] := rfl

@[simp] theorem processed_append (l₁ l₂ : List PublisherEvent) :
    processed (l₁ ++ l₂) = processed l₁ ++ processed l₂ := List.flatMap_append ..

/-- The connection stands, its handshake is done, and its session has been given what follows the
handshake. -/
def Tolerates (rest : List UInt8)
    (trace : List (Machine.Moment (Option Publisher) PublisherInput PublisherEvent))
    (pub : Option Publisher) : Prop :=
  ∃ p, pub = some p ∧ p.session.handshake.isDone = true ∧ processed (Machine.outputs trace) = rest

/-- Reads that the callback can take a handshake out of: all of it is in the first one; or the first one
is C0 and C1, and C2 is in the second one.  What is sent must not fail. -/
inductive TakesHandshake : List PublisherInput → Prop
  | atOnce {i : PublisherInput} {is : List PublisherInput} {n : ℕ} :
      3073 ≤ i.data.length → i.outcome.protocolWritten = .ok n → TakesHandshake (i :: is)
  | inTwo {i j : PublisherInput} {is : List PublisherInput} {n k : ℕ} :
      i.data.length = 1537 → i.outcome.responseWritten = .ok n → 1536 ≤ j.data.length →
      j.outcome.protocolWritten = .ok k → TakesHandshake (i :: j :: is)

section Reads

variable {p : Publisher} {pub : Option Publisher}
  {trace : List (Machine.Moment (Option Publisher) PublisherInput PublisherEvent)}

theorem IsHandling.processed {out : List PublisherEvent} (h : ∀ e ∈ out, e.IsHandling) :
    processed out = [] := by
  rw [Relay.processed, List.flatMap_eq_nil_iff]
  intro e he
  have := h e he
  cases e with
  | processInput data => exact absurd this id
  | _ => rfl

theorem Publisher.Took.processed {data : List UInt8} {out : List PublisherEvent}
    (h : Took data out) : processed out = data := by
  rcases h with ⟨rfl, rfl⟩ | ⟨rest, rfl, hrest⟩
  · rfl
  · have := IsHandling.processed hrest
    rw [Relay.processed] at this ⊢
    rw [List.flatMap_cons, this, List.append_nil]

theorem run_removed (hrun : Machine.Run publisherMachine none trace pub) : pub = none := by
  induction hrun with
  | nil => rfl
  | snoc _ hstep ih =>
      subst ih
      exact (congrArg Prod.fst (Except.ok.inj hstep)).symm

/-- **Behind the handshake, the session is given every read.** -/
theorem run_done (hdone : p.session.handshake.isDone = true) (hsound : p.Sound)
    (hrun : Machine.Run publisherMachine (some p) trace pub)
    (hreads : ∀ i ∈ Machine.inputs trace, i.data ≠ []) :
    ∃ p', pub = some p' ∧ p'.session.handshake.isDone = true ∧ p'.Sound ∧
      processed (Machine.outputs trace) = (Machine.inputs trace).flatMap PublisherInput.data := by
  induction hrun with
  | nil => exact ⟨p, rfl, hdone, hsound, rfl⟩
  | @snoc trace pub pub' i out hrun hstep ih =>
      rw [Machine.inputs_snoc] at hreads
      obtain ⟨p', rfl, hdone', hsound', hprocessed⟩ := ih fun j hj =>
        hreads j (List.mem_append_left _ hj)
      have hdata := hreads i (List.mem_append_right _ (List.mem_singleton_self _))
      have hperform : perform (some p') i = .ok (pub', out) := hstep
      rw [perform_of_data hdata, if_neg (by simp [hdone'])] at hperform
      obtain ⟨r', -, q, events, rfl, rfl, hkeeps, hevents⟩ :=
        (returns_processInput hdone' hsound' i.data i.outcome.calls).of_map hperform
      refine ⟨q, rfl, hkeeps.handshake ▸ hdone', ?_, ?_⟩
      · rw [Sound, hkeeps.outChunkSize]
        exact hsound'
      · rw [Machine.outputs_snoc, Machine.inputs_snoc, processed_append, hprocessed,
          List.flatMap_append, List.flatMap_singleton]
        exact congrArg _ (Took.processed (.inr ⟨events, rfl, hevents⟩))

theorem run_completed {o : PublisherOutcome} {data : List UInt8} {out : List PublisherEvent}
    {next : Option Publisher} (hcompletes : Completes o data next out)
    (hrun : Machine.Run publisherMachine next trace pub)
    (hreads : ∀ i ∈ Machine.inputs trace, i.data ≠ []) :
    ((∃ f, o.protocolWritten = .error f) ∧ pub = none) ∨
      ∃ n p, o.protocolWritten = .ok n ∧ pub = some p ∧ p.session.handshake.isDone = true ∧
        processed (out ++ Machine.outputs trace) =
          data ++ (Machine.inputs trace).flatMap PublisherInput.data := by
  cases hcompletes with
  | @failed f hwritten => exact .inl ⟨⟨f, hwritten⟩, run_removed hrun⟩
  | @done n p events hwritten hdone hsound htook =>
      obtain ⟨p', rfl, hdone', -, hprocessed⟩ := run_done hdone hsound hrun hreads
      refine .inr ⟨n, p', hwritten, rfl, hdone', ?_⟩
      rw [processed_append, hprocessed]
      exact congrArg (· ++ _) htook.processed

/-- The stream that a publisher sends: C0, C1, C2 and what follows. -/
def IsStream (bytes rest : List UInt8) : Prop :=
  ∃ c1 c2 : List UInt8, c1.length = 1536 ∧ c2.length = 1536 ∧ bytes = 3 :: c1 ++ c2 ++ rest

theorem IsStream.drop {bytes rest : List UInt8} (h : IsStream bytes rest) :
    3073 ≤ bytes.length ∧ bytes.drop 3073 = rest := by
  obtain ⟨c1, c2, h1, h2, rfl⟩ := h
  have hlen : (3 :: c1 ++ c2).length = 3073 := by
    rw [List.length_append, List.length_cons, h1, h2]
  refine ⟨?_, List.drop_left' hlen⟩
  rw [List.length_append, hlen]
  exact Nat.le_add_right _ _

theorem IsStream.clientHello {data more rest : List UInt8} (h : IsStream (data ++ more) rest)
    (hlen : 1537 ≤ data.length) : ClientHello data := by
  obtain ⟨c1, c2, -, -, hbytes⟩ := h
  obtain ⟨byte, data, rfl⟩ := List.exists_cons_of_length_pos (by omega : 0 < data.length)
  obtain ⟨rfl, -⟩ := List.cons.inj hbytes
  exact ⟨hlen, rfl⟩

/-- The second read of a handshake is long enough, and the answer to it does not fail. -/
def TakesC2 (is : List PublisherInput) : Prop :=
  ∃ j js k, is = j :: js ∧ 1536 ≤ j.data.length ∧ j.outcome.protocolWritten = .ok k

theorem takesHandshake_cons {i : PublisherInput} {is : List PublisherInput} :
    TakesHandshake (i :: is) ↔
      (3073 ≤ i.data.length ∧ ∃ n, i.outcome.protocolWritten = .ok n) ∨
        (i.data.length = 1537 ∧ (∃ n, i.outcome.responseWritten = .ok n) ∧ TakesC2 is) := by
  constructor
  · intro h
    cases h with
    | atOnce hlen hwritten => exact .inl ⟨hlen, _, hwritten⟩
    | inTwo hlen hwritten hsecond hok =>
        exact .inr ⟨hlen, ⟨_, hwritten⟩, _, _, _, rfl, hsecond, hok⟩
  · rintro (⟨hlen, n, hwritten⟩ | ⟨hlen, ⟨n, hwritten⟩, j, js, k, rfl, hsecond, hok⟩)
    · exact .atOnce hlen hwritten
    · exact .inTwo hlen hwritten hsecond hok

theorem not_tolerates_none {rest : List UInt8} : ¬ Tolerates rest trace none := by
  rintro ⟨p, hp, -⟩
  cases hp

/-- Behind a first read that has been answered: what is left of it is lost. -/
theorem tolerates_answered {growth : GrowthPolicy} {hs : Handshake} {first rest : List UInt8}
    (hfresh : p.session = Session.established growth hs) (hsent : hs.state = .s0s1s2Sent)
    (hrun : Machine.Run publisherMachine (some p) trace pub)
    (hreads : ∀ i ∈ Machine.inputs trace, i.data ≠ [])
    (hlen : 1537 ≤ first.length ∧ first.length < 3073)
    (hstream : IsStream (first ++ (Machine.inputs trace).flatMap PublisherInput.data) rest) :
    Tolerates rest trace pub ↔ first.length = 1537 ∧ TakesC2 (Machine.inputs trace) := by
  cases trace with
  | nil =>
      have htotal := hstream.drop.1
      rw [Machine.inputs_nil, List.flatMap_nil, List.append_nil] at htotal
      omega
  | cons m trace =>
      obtain ⟨hstate, next, hstep, hrest⟩ := hrun.of_cons
      obtain ⟨state, j, out⟩ := m
      subst hstate
      have hinputs : Machine.inputs (⟨some p, j, out⟩ :: trace) = j :: Machine.inputs trace := rfl
      have houtputs : Machine.outputs (⟨some p, j, out⟩ :: trace) = out ++ Machine.outputs trace := rfl
      have htakes : TakesC2 (j :: Machine.inputs trace) ↔
          1536 ≤ j.data.length ∧ ∃ k, j.outcome.protocolWritten = .ok k := by
        constructor
        · rintro ⟨j', js, k, heq, hsecond, hok⟩
          obtain ⟨rfl, -⟩ := List.cons.inj heq
          exact ⟨hsecond, k, hok⟩
        · rintro ⟨hsecond, k, hok⟩
          exact ⟨j, _, k, rfl, hsecond, hok⟩
      rw [hinputs] at hreads hstream ⊢
      rw [htakes]
      rw [List.flatMap_cons] at hstream
      have hdata := hreads j List.mem_cons_self
      have hperform : perform (some p) j = .ok (next, out) := hstep
      rw [perform_of_not_done hfresh (by simp [hsent]) hdata] at hperform
      rcases readHandshake_sent (r := j.relays) (o := j.outcome) j.data hfresh hsent with
        ⟨hshort, hcall⟩ | ⟨hsecond, hreturns⟩
      · rw [hcall] at hperform
        obtain ⟨rfl, rfl⟩ := Prod.mk.inj (Except.ok.inj hperform)
        obtain rfl := run_removed hrest
        exact iff_of_false not_tolerates_none fun h => absurd h.2.1 (Nat.not_le.2 hshort)
      · obtain ⟨r', -, hcompletes⟩ := hreturns.of_map hperform
        rcases run_completed hcompletes hrest fun i hi => hreads i (List.mem_cons_of_mem _ hi) with
          ⟨⟨f, hwritten⟩, rfl⟩ | ⟨n, p', hwritten, rfl, hdone, hprocessed⟩
        · refine iff_of_false not_tolerates_none ?_
          rintro ⟨-, -, k, hok⟩
          rw [hwritten] at hok
          cases hok
        · have hgiven : Tolerates rest (⟨some p, j, out⟩ :: trace) (some p') ↔
              j.data.drop 1536 ++ (Machine.inputs trace).flatMap PublisherInput.data = rest := by
            constructor
            · rintro ⟨p'', -, -, hrest'⟩
              rwa [houtputs, hprocessed] at hrest'
            · intro h
              exact ⟨p', rfl, hdone, by rw [houtputs, hprocessed, h]⟩
          rw [hgiven]
          have htotal := hstream.drop
          constructor
          · -- what is lost is missing from what the session is given
            intro h
            have hlength := congrArg List.length htotal.2
            rw [← h, List.length_drop, List.length_append, List.length_append, List.length_append,
              List.length_drop] at hlength
            have hmin := htotal.1
            rw [List.length_append, List.length_append] at hmin
            exact ⟨by omega, hsecond, n, hwritten⟩
          · rintro ⟨hexact, -⟩
            have hfirst : first.drop 3073 = [] := List.drop_eq_nil_of_le (by omega)
            have hrest' : 3073 - first.length = 1536 := by omega
            rw [← htotal.2, List.drop_append, hfirst, hrest', List.nil_append,
              List.drop_append_of_le_length hsecond]

/-- **A handshake is tolerated exactly in one read or in two of the right lengths.** -/
theorem tolerates_connection {growth : GrowthPolicy} {rest : List UInt8}
    (hrun : Machine.Run publisherMachine (some (Publisher.new growth)) trace pub)
    (hreads : ∀ i ∈ Machine.inputs trace, i.data ≠ [])
    (hstream : IsStream ((Machine.inputs trace).flatMap PublisherInput.data) rest) :
    Tolerates rest trace pub ↔ TakesHandshake (Machine.inputs trace) := by
  cases trace with
  | nil => exact absurd hstream.drop.1 (by decide)
  | cons m trace =>
      obtain ⟨hstate, next, hstep, hrest⟩ := hrun.of_cons
      obtain ⟨state, i, out⟩ := m
      subst hstate
      have hinputs : Machine.inputs (⟨some (Publisher.new growth), i, out⟩ :: trace)
          = i :: Machine.inputs trace := rfl
      have houtputs : Machine.outputs (⟨some (Publisher.new growth), i, out⟩ :: trace)
          = out ++ Machine.outputs trace := rfl
      rw [hinputs] at hreads hstream ⊢
      rw [List.flatMap_cons] at hstream
      have hdata := hreads i List.mem_cons_self
      have hmore : ∀ j ∈ Machine.inputs trace, j.data ≠ [] := fun j hj =>
        hreads j (List.mem_cons_of_mem _ hj)
      have hperform : perform (some (Publisher.new growth)) i = .ok (next, out) := hstep
      have hnew : (Publisher.new growth).session = Session.established growth {} := rfl
      rw [perform_of_not_done hnew (by decide) hdata] at hperform
      rcases readHandshake_uninitialized (r := i.relays) (o := i.outcome) hnew rfl with
        ⟨hnot, hcall⟩ | ⟨hhello, hlen, s1, -, hanswer⟩ | ⟨hhello, hlen, hreturns⟩
      · rw [hcall] at hperform
        obtain ⟨rfl, rfl⟩ := Prod.mk.inj (Except.ok.inj hperform)
        obtain rfl := run_removed hrest
        refine iff_of_false not_tolerates_none fun h => ?_
        rcases takesHandshake_cons.1 h with ⟨hlen, -⟩ | ⟨hlen, -⟩
        · exact hnot (hstream.clientHello (by omega))
        · exact hnot (hstream.clientHello hlen.ge)
      · rcases hanswer with ⟨f, hwritten, hcall⟩ | ⟨n, hs', hwritten, hsent, hcall⟩
        · rw [hcall] at hperform
          obtain ⟨rfl, rfl⟩ := Prod.mk.inj (Except.ok.inj hperform)
          obtain rfl := run_removed hrest
          refine iff_of_false not_tolerates_none fun h => ?_
          rcases takesHandshake_cons.1 h with ⟨hlong, -⟩ | ⟨-, ⟨n, hok⟩, -⟩
          · omega
          · rw [hwritten] at hok
            cases hok
        · rw [hcall] at hperform
          obtain ⟨rfl, rfl⟩ := Prod.mk.inj (Except.ok.inj hperform)
          have hsecond := tolerates_answered rfl hsent hrest hmore ⟨hhello.1, hlen⟩ hstream
          have hsame : Tolerates rest (⟨some (Publisher.new growth), i,
              [.handshake (3 :: s1 ++ clientChallenge i.data) (.ok n)]⟩ :: trace) pub ↔
                Tolerates rest trace pub := by
            simp only [Tolerates, houtputs]
            rfl
          rw [hsame, hsecond, takesHandshake_cons]
          constructor
          · rintro ⟨hexact, hc2⟩
            exact .inr ⟨hexact, ⟨n, hwritten⟩, hc2⟩
          · rintro (⟨hlong, -⟩ | ⟨hexact, -, hc2⟩)
            · omega
            · exact ⟨hexact, hc2⟩
      · obtain ⟨r', -, hcompletes⟩ := hreturns.of_map hperform
        rcases run_completed hcompletes hrest hmore with
          ⟨⟨f, hwritten⟩, rfl⟩ | ⟨n, q, hwritten, rfl, hdone, hprocessed⟩
        · refine iff_of_false not_tolerates_none fun h => ?_
          rcases takesHandshake_cons.1 h with ⟨-, n, hok⟩ | ⟨hshort, -⟩
          · rw [hwritten] at hok
            cases hok
          · omega
        · refine iff_of_true ⟨q, rfl, hdone, ?_⟩ (.atOnce hlen hwritten)
          rw [houtputs, hprocessed, ← List.drop_append_of_le_length hlen]
          exact hstream.drop.2

end Reads

/-- **A handshake is tolerated exactly in one read or in two of the right lengths**, on every connection
of every run of the manager. -/
theorem tolerates_iff {m m' : RelayManager} {id : ℕ} {growth : GrowthPolicy} {rest : List UInt8}
    {trace : List (Machine.Moment RelayManager RelayInput RelayOutput)}
    (hrun : Machine.Run RelayManager.machine m trace m') (hid : id < m.next)
    (hnew : m.publishers id = some (Publisher.new growth))
    (hreads : ∀ i ∈ Machine.inputs (connection id trace), i.data ≠ [])
    (hstream : IsStream ((Machine.inputs (connection id trace)).flatMap PublisherInput.data) rest) :
    Tolerates rest (connection id trace) (m'.publishers id) ↔
      TakesHandshake (Machine.inputs (connection id trace)) := by
  have hconnection := (run_connection hrun hid).2
  rw [hnew] at hconnection
  exact tolerates_connection hconnection hreads hstream

theorem exists_two_reads {first second : List UInt8} (hfirst : first.length ≤ 8192)
    (hsecond : second.length ≤ 8192) :
    ∃ trace m' i j, Machine.Run RelayManager.machine acceptedOne trace m' ∧
      Machine.inputs (connection 0 trace) = [i, j] ∧ i.data = first ∧ j.data = second ∧
      i.outcome = readsData first hfirst ∧ j.outcome = readsData second hsecond := by
  obtain ⟨trace, m', hrun, hinputs⟩ :=
    exists_reads [readsData first hfirst, readsData second hsecond]
  obtain ⟨i, is, his, hi, hrest⟩ := List.map_eq_cons_iff.1 hinputs
  obtain ⟨j, hjs, hj⟩ := List.map_eq_singleton_iff.1 hrest
  obtain ⟨hmaski, houtcomei⟩ := Prod.mk.inj hi
  obtain ⟨hmaskj, houtcomej⟩ := Prod.mk.inj hj
  refine ⟨trace, m', i, j, hrun, by rw [his, hjs], ?_, ?_, houtcomei, houtcomej⟩
  · rw [PublisherInput.data, hmaski, houtcomei]
    rfl
  · rw [PublisherInput.data, hmaskj, houtcomej]
    rfl

/-- C0 and C1 in the first read, C2 and three bytes in the second one. -/
theorem tolerates_two_reads : ∃ trace m', Machine.Run RelayManager.machine acceptedOne trace m' ∧
    Tolerates [1, 2, 3] (connection 0 trace) (m'.publishers 0) := by
  have hfirst := length_hello 0
  have hsecond : (List.replicate 1536 0 ++ [1, 2, 3] : List UInt8).length = 1539 := by
    rw [List.length_append, List.length_replicate]
    rfl
  obtain ⟨trace, m', i, j, hrun, hinputs, hi, hj, hoi, hoj⟩ :=
    exists_two_reads (by omega : (hello 0).length ≤ 8192) (hsecond.trans_le (by omega))
  refine ⟨trace, m', hrun, (tolerates_iff hrun (by decide) rfl ?_ ?_).2 ?_⟩
  · intro k hk
    rw [hinputs] at hk
    rcases List.mem_pair.1 hk with rfl | rfl
    · rw [hi]
      exact List.cons_ne_nil _ _
    · rw [hj]
      exact List.append_ne_nil_of_right_ne_nil _ (List.cons_ne_nil _ _)
  · refine ⟨List.replicate 1536 0, List.replicate 1536 0, List.length_replicate,
      List.length_replicate, ?_⟩
    rw [hinputs, List.flatMap_cons, List.flatMap_singleton, hi, hj, hello]
    simp only [List.cons_append, List.append_assoc]
  · rw [hinputs]
    refine @TakesHandshake.inTwo i j [] 3073 49 ?_ ?_ ?_ ?_
    · rw [hi]
      exact hfirst
    · rw [hoi]
      rfl
    · rw [hj, hsecond]
      omega
    · rw [hoj]
      rfl

/-- A handshake whose first byte comes alone. -/
theorem first_byte_alone : ¬ ∀ (m m' : RelayManager) (id : ℕ) (growth : GrowthPolicy)
    (rest : List UInt8) (trace : List (Machine.Moment RelayManager RelayInput RelayOutput)),
    Machine.Run RelayManager.machine m trace m' → id < m.next →
      m.publishers id = some (Publisher.new growth) →
      (∀ i ∈ Machine.inputs (connection id trace), i.data ≠ []) →
      IsStream ((Machine.inputs (connection id trace)).flatMap PublisherInput.data) rest →
      Tolerates rest (connection id trace) (m'.publishers id) := by
  intro h
  have hsecond : (List.replicate 3072 0 : List UInt8).length = 3072 := List.length_replicate
  obtain ⟨trace, m', i, j, hrun, hinputs, hi, hj, -, -⟩ :=
    exists_two_reads (show ([3] : List UInt8).length ≤ 8192 by decide)
      (hsecond.trans_le (by omega))
  have hreads : ∀ k ∈ Machine.inputs (connection 0 trace), k.data ≠ [] := by
    intro k hk
    rw [hinputs] at hk
    rcases List.mem_pair.1 hk with rfl | rfl
    · rw [hi]
      exact List.cons_ne_nil _ _
    · rw [hj]
      exact fun hnil => by simp [hnil] at hsecond
  have hstream : IsStream
      ((Machine.inputs (connection 0 trace)).flatMap PublisherInput.data) [] := by
    refine ⟨List.replicate 1536 0, List.replicate 1536 0, List.length_replicate,
      List.length_replicate, ?_⟩
    have hsplit : (List.replicate 3072 0 : List UInt8)
        = List.replicate 1536 0 ++ List.replicate 1536 0 := by
      rw [List.replicate_append_replicate]
    rw [hinputs, List.flatMap_cons, List.flatMap_singleton, hi, hj, List.append_nil, hsplit]
    rfl
  have htolerates := h acceptedOne m' 0 .exact [] trace hrun (by decide) rfl hreads hstream
  have hconnection := (run_connection hrun (by decide : 0 < acceptedOne.next)).2
  have htakes := (tolerates_connection hconnection hreads hstream).1 htolerates
  rw [hinputs, takesHandshake_cons, hi] at htakes
  rcases htakes with ⟨hlen, -⟩ | ⟨hlen, -⟩
  · exact absurd hlen (by decide)
  · exact absurd hlen (by decide)

end Relay
