/-
**What the user of a client is told.**

A client tells its user that it has connected, that a message has come, and that the connection has
ended.  It closes its socket in `cleanup` only, which ends in the disconnected callback, and it reads
from its socket only.  So its user can follow, from the callbacks alone, whether there is a socket:
none of the first two kinds comes without one, and the third comes whenever it is lost.

Main definitions:

* `Rtmp.LoopOutput.CallsBack` — the client tells its user of a connection that stands;
* `Rtmp.Told` — what is told, from a state of the socket to another one.

Main results:

* `Rtmp.Client.handleReadable_ended` — what a read tells that ends the connection;
* `Rtmp.EventClient.told_perform` — **whatever a client does, its user can follow whether it has a
  socket**.
-/

import RtmpTranscoder.ClientLoop

set_option relaxedAutoImplicit false
set_option autoImplicit false

namespace Rtmp

/-- The client tells its user of a connection that stands. -/
def LoopOutput.CallsBack : LoopOutput → Prop
  | .did .connectedCallback | .did (.messageCallback _) => True
  | _ => False

/-- `Told b out b'`: with a socket if `b` says so, the client does `out`, and has a socket afterwards if
`b'` says so. -/
inductive Told : Bool → List LoopOutput → Bool → Prop
  | nil {b : Bool} : Told b [] b
  | quiet {b b' : Bool} {e : LoopOutput} {out : List LoopOutput} :
      ¬ e.CallsBack → e ≠ .did .disconnectedCallback → Told b out b' → Told b (e :: out) b'
  | callsBack {b' : Bool} {e : LoopOutput} {out : List LoopOutput} :
      e.CallsBack → Told true out b' → Told true (e :: out) b'
  | disconnected {b b' : Bool} {out : List LoopOutput} :
      Told false out b' → Told b (.did .disconnectedCallback :: out) b'

namespace Told

variable {b b' b'' : Bool} {out out' : List LoopOutput}

theorem append (h : Told b out b') (h' : Told b' out' b'') : Told b (out ++ out') b'' := by
  induction h with
  | nil => exact h'
  | quiet hcalls hends _ ih => exact .quiet hcalls hends (ih h')
  | callsBack hcalls _ ih => exact .callsBack hcalls (ih h')
  | disconnected _ ih => exact .disconnected (ih h')

theorem of_open (h : .did .disconnectedCallback ∉ out) : Told true out true := by
  induction out with
  | nil => exact .nil
  | cons e out ih =>
      have hrest := ih fun hmem => h (List.mem_cons_of_mem _ hmem)
      by_cases hcalls : e.CallsBack
      · exact .callsBack hcalls hrest
      · exact .quiet hcalls (fun heq => h (heq ▸ List.mem_cons_self)) hrest

/-- Whoever tells only that the connection has ended has no socket afterwards. -/
theorem of_silent (hsilent : ∀ e ∈ out, ¬ e.CallsBack)
    (hends : b = false ∨ .did .disconnectedCallback ∈ out) :
    Told b out false := by
  induction out generalizing b with
  | nil =>
      obtain rfl := hends.resolve_right List.not_mem_nil
      exact .nil
  | cons e out ih =>
      have hrest : ∀ e ∈ out, ¬ e.CallsBack := fun e he => hsilent e (List.mem_cons_of_mem _ he)
      by_cases hend : e = .did .disconnectedCallback
      · subst hend
        exact .disconnected (ih hrest (.inl rfl))
      · refine .quiet (hsilent e List.mem_cons_self) hend (ih hrest ?_)
        exact hends.imp_right fun hmem => (List.mem_cons.1 hmem).resolve_left fun heq => hend heq.symm

end Told

/-! ### Reads -/

theorem disconnectedCallback_notMem {out : List LoopOutput} (h : disconnects out = 0) :
    .did .disconnectedCallback ∉ out := by
  intro hmem
  have hnone := (List.countP_eq_zero.1 h) _ hmem
  exact hnone rfl

theorem Client.handleReadable_ended {c c' : Client} {r : Readiness} {events : List ClientEvent}
    (hcall : c.handleReadable r = .ok (c', events)) (hopen : c.socketOpen = true)
    (hended : c'.socketOpen = false) :
    .did .disconnectedCallback ∈ events.map LoopOutput.did ∧
      ∀ e ∈ events.map LoopOutput.did, ¬ e.CallsBack := by
  have hstays : c'.socketOpen = c.socketOpen → False := by
    intro hsame
    exact absurd (hopen.symm.trans (hsame.symm.trans hended)) (by decide)
  have hcleanup (c : Client) (before : List LoopOutput) (hbefore : ∀ e ∈ before, ¬ e.CallsBack) :
      .did .disconnectedCallback ∈ before ++ c.cleanup.2.map LoopOutput.did ∧
        ∀ e ∈ before ++ c.cleanup.2.map LoopOutput.did, ¬ e.CallsBack := by
    refine ⟨List.mem_append_right _ (List.mem_singleton_self _), fun e he => ?_⟩
    rcases List.mem_append.1 he with he | he
    · exact hbefore e he
    · rw [List.mem_singleton.1 he]
      exact id
  have hnothing : ∀ e ∈ ([] : List LoopOutput), ¬ e.CallsBack := fun _ he => absurd he List.not_mem_nil
  unfold handleReadable at hcall
  split at hcall
  · obtain ⟨rfl, rfl⟩ := Prod.mk.inj (Except.ok.inj hcall)
    exact hcleanup c [] hnothing
  · split at hcall
    · obtain ⟨rfl, rfl⟩ := Prod.mk.inj (Except.ok.inj hcall)
      exact hcleanup c [] hnothing
    · simp only at hcall
      split at hcall
      · unfold handleHandshake at hcall
        split at hcall
        · obtain ⟨rfl, rfl⟩ := Prod.mk.inj (Except.ok.inj hcall)
          exact absurd rfl hstays
        · split at hcall
          · cases hcall
          · rename_i c2Data _
            simp only at hcall
            split at hcall
            · -- the answer to the handshake cannot be written
              obtain ⟨rfl, rfl⟩ := Prod.mk.inj (Except.ok.inj hcall)
              refine hcleanup _ [.did (.write c2Data)] fun e he => ?_
              rw [List.mem_singleton.1 he]
              exact id
            · refine absurd ?_ hstays
              rw [← (Prod.mk.inj (Except.ok.inj hcall)).1]
              split
              · rfl
              · exact (processBufferedData_spec _).2.1
      · refine absurd ?_ hstays
        rw [← (Prod.mk.inj (Except.ok.inj hcall)).1]
        exact (processBufferedData_spec _).2.1

namespace EventClient

variable {c c' : EventClient} {out : List LoopOutput}

theorem told_cleanup (c : EventClient) : Told c.socketOpen c.cleanup.2 c.cleanup.1.socketOpen :=
  .disconnected .nil

theorem told_handleReadable {r : Readiness} (hcall : c.handleReadable r = .ok (c', out)) :
    Told c.socketOpen out c'.socketOpen := by
  unfold handleReadable at hcall
  dsimp only at hcall
  cases hopen : c.socketOpen with
  | false =>
      -- there is nothing to read from, so the read fails
      simp only [hopen, Client.handleReadable, Bool.false_eq_true, if_false] at hcall
      obtain ⟨rfl, rfl⟩ := Prod.mk.inj (Except.ok.inj hcall)
      exact .disconnected .nil
  | true =>
      obtain ⟨client, events, hread, -, hends⟩ := c.toClient.handleReadable_spec r
      simp only [hopen, if_true, hread] at hcall
      obtain ⟨rfl, rfl⟩ := Prod.mk.inj (Except.ok.inj hcall)
      rcases hends with ⟨-, hended, -⟩ | ⟨-, hsame, -, hcalls⟩
      · obtain ⟨hmem, hsilent⟩ := Client.handleReadable_ended hread hopen hended.socketOpen
        change Told true _ client.socketOpen
        rw [hended.socketOpen]
        exact .of_silent hsilent (.inr hmem)
      · change Told true _ client.socketOpen
        rw [hsame, hopen]
        exact .of_open (disconnectedCallback_notMem hcalls)

/-! ### Writes -/

theorem socketOpen_takeOutgoing (c : EventClient) : c.takeOutgoing.socketOpen = c.socketOpen := by
  unfold takeOutgoing
  split <;> rfl

theorem socketOpen_requestWrite (c : EventClient) : c.requestWrite.socketOpen = c.socketOpen := by
  unfold requestWrite
  split <;> rfl

theorem told_accepted (b : Bool) (data : List UInt8) : Told b [.accepted data] b :=
  .quiet id (by simp) .nil

theorem told_flush (c : EventClient) (written : Except Failure ℕ) :
    Told c.socketOpen (c.flush written).2 (c.flush written).1.socketOpen := by
  have htake := c.socketOpen_takeOutgoing
  rw [← htake]
  unfold flush
  split
  · rw [htake]
    exact .nil
  · dsimp only
    split
    · exact .nil
    · split
      · exact .nil
      · split
        · exact told_accepted _ _
        · exact told_accepted _ _

theorem told_onWritable (c : EventClient) (written : Except Failure ℕ) :
    Told c.socketOpen (c.onWritable written).2 (c.onWritable written).1.socketOpen := by
  have hwrite : Told c.socketOpen [.did (.write c.handshakeData)] c.socketOpen :=
    .quiet id (by simp) .nil
  unfold onWritable
  split
  · split
    · split
      · exact hwrite
      · exact hwrite
    · exact hwrite
  · rw [← c.socketOpen_takeOutgoing]
    unfold handleWritable
    dsimp only
    split
    · exact .nil
    · split
      · exact told_cleanup _
      · split
        · exact told_accepted _ _
        · exact told_accepted _ _

/-- **Whatever a client does, its user can follow whether it has a socket.**  A new connection is asked
for by the user. -/
theorem told_perform {policy : GrowthPolicy} {action : ClientAction}
    (hcall : c.perform policy action = .ok (c', out)) (haction : ∀ o, action ≠ .connect o) :
    Told c.socketOpen out c'.socketOpen := by
  have hsend {encoded : Except Failure (List UInt8)}
      (hencoding : action.encoding c.session.outChunkSize = some encoded) :
      Told c.socketOpen out c'.socketOpen := by
    rw [outputs_of_send hencoding hcall]
    rw [perform_send hencoding] at hcall
    split at hcall
    · cases encoded with
      | error f => cases hcall
      | ok bytes =>
          rw [← (Prod.mk.inj (Except.ok.inj hcall)).1, socketOpen_requestWrite]
          exact .nil
    · rw [← (Prod.mk.inj (Except.ok.inj hcall)).1]
      exact .nil
  cases action with
  | connect o => exact absurd rfl (haction o)
  | disconnect =>
      obtain ⟨rfl, rfl⟩ | ⟨rfl, rfl⟩ := perform_disconnect hcall
      · exact c.told_cleanup
      · exact .nil
  | sendMessage msg => exact hsend rfl
  | sendCommand cmd csid => exact hsend rfl
  | flush written =>
      obtain ⟨rfl, rfl⟩ := Prod.mk.inj (Except.ok.inj hcall)
      exact told_flush c written
  | events mask o =>
      obtain ⟨-, hcall⟩ | ⟨-, rfl, rfl⟩ := perform_events hcall
      · obtain ⟨c₂, out₂, hread, rfl, rfl⟩ := onEvents_branches hcall
        -- the three branches of the callback, one after the other
        have hwritable : Told c.socketOpen (if mask.epollOut then c.onWritable o.written else (c, [])).2
            (if mask.epollOut then c.onWritable o.written else (c, [])).1.socketOpen := by
          split
          · exact told_onWritable c o.written
          · exact .nil
        have hreadable : Told (if mask.epollOut then c.onWritable o.written else (c, [])).1.socketOpen
            out₂ c₂.socketOpen := by
          split at hread
          · exact told_handleReadable hread
          · obtain ⟨rfl, rfl⟩ := Prod.mk.inj (Except.ok.inj hread)
            exact .nil
        refine (hwritable.append hreadable).append ?_
        split
        · exact told_cleanup c₂
        · exact .nil
      · exact .nil

end EventClient

end Rtmp
