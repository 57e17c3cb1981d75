/-
**Connections are accepted and removed.**

`Host.lean` has the server, the sockets and the event loop.  Here they run: connections are accepted,
publishers are removed, and clients are created, connected and destroyed, in any order, within the
callbacks of a batch or between batches.

A batch is a list of events that have been reported together, and the callbacks are looked up one after
the other.  That the callback of a publisher uses a publisher that is there is not checked anywhere.  It
holds because nobody but this callback removes the publisher, and there is one event for a descriptor in
a batch: what is known of an event when it is reported is still true when its turn comes.

Main definitions:

* `Host.Performs`, `Host.Traces` — what is done with the sockets;
* `Host.Pending` — what is known of an event whose turn is still to come;
* `Host.Reached`, `Host.Reaches` — events of the listening socket and of publishers have reached, or reach,
  their callbacks;
* `Host.Entry` — what there is in `callbacks_`.

Main results:

* `Host.safe_acceptOne`, `Host.safe_deed` — what is done with a connection, and with a client;
* `Host.performing_invoke` — **the sockets of the program are those of `Sockets.lean`**;
* `Host.turn_spec`, `Host.dispatch_spec`, `Host.reaches_dispatch` — the turn of an event, and a batch;
* `Host.descriptors_accounted` — **every descriptor that is open has one holder**;
* `Host.events_reach_publishers` — **no removed publisher is used, and the events of publishers reach
  their callbacks**.
-/

import RtmpTranscoder.Host

set_option relaxedAutoImplicit false
set_option autoImplicit false

open Actions (Action Fault all andThen nothing)
open Machine (Moment Run)

namespace Host

/-! ### What is done with a connection -/

section Connections

variable {h : Host} {a : Accepted}

theorem Tidy.locals (ht : h.Tidy) : h.sockets.objects .result = none ∧
    h.sockets.objects .clientSocket = none ∧ h.sockets.objects .parameter = none :=
  ⟨ht.arrived _ (.inr (.inl rfl)), ht.arrived _ (.inr (.inr (.inl rfl))),
    ht.arrived _ (.inr (.inr (.inr rfl)))⟩

theorem acceptOne_dropped (ht : h.Tidy) (hfd : 0 ≤ a.fd) (hfresh : a.fd ∉ h.sockets.descriptors)
    (hnonblocking : a.nonblocking = false) :
    acceptOne a h = .ok (calling (fun fd => .close fd) h a.fd,
      [.descriptor (.opened a.fd), .descriptor (.closed a.fd)]) := by
  obtain ⟨hresult, hclient, -⟩ := ht.locals
  have hne : a.fd ≠ -1 := by omega
  have hlt : ¬ a.fd < 0 := by omega
  simp [acceptOne, all, andThen, nothing, socket, Sockets.perform, Sockets.put, hresult, hne, hlt, hfresh,
    hclient, hnonblocking, Socket.close, Sockets.shut, closings, EpollLoop.perform, calling, hfd]
  refine congrArg (Sockets.mk · h.sockets.descriptors) (funext fun k => ?_)
  cases k <;> simp [Function.update, hresult, hclient]

theorem acceptOne_kept (ht : h.Tidy) (hfd : 0 ≤ a.fd) (hfresh : a.fd ∉ h.sockets.descriptors)
    (hpub : h.sockets.objects (.publisher a.pub) = none) (hnonblocking : a.nonblocking = true) :
    acceptOne a h = .ok (adding (.publisher a.pub) epollIn a.refused
      (holding (.publisher a.pub) h a.fd) a.fd, [.descriptor (.opened a.fd)]) := by
  obtain ⟨hresult, hclient, hparameter⟩ := ht.locals
  have hne : a.fd ≠ -1 := by omega
  have hlt : ¬ a.fd < 0 := by omega
  simp [acceptOne, all, andThen, nothing, socket, Sockets.perform, Sockets.put, hresult, hne, hlt, hfresh,
    hclient, hparameter, hpub, hnonblocking, handleNewPublisher, add, withFd, Socket.new, Socket.close,
    Sockets.shut, closings, EpollLoop.perform, adding, holding]
  funext k
  cases k <;> simp [Function.update, hresult, hclient, hparameter]

/-- `accept` does not answer with a descriptor that is open. -/
theorem acceptOne_impossible (hfd : a.fd ≠ -1) (ht : h.Tidy)
    (hnot : a.fd < 0 ∨ a.fd ∈ h.sockets.descriptors) : acceptOne a h = .error .impossible := by
  have hresult := ht.locals.1
  simp [acceptOne, all, andThen, socket, Sockets.perform, hresult, hfd, hnot]

theorem acceptOne_occupied (ht : h.Tidy) (hfd : 0 ≤ a.fd) (hfresh : a.fd ∉ h.sockets.descriptors)
    {s : Socket} (hpub : h.sockets.objects (.publisher a.pub) = some s)
    (hnonblocking : a.nonblocking = true) : acceptOne a h = .error .impossible := by
  obtain ⟨hresult, hclient, hparameter⟩ := ht.locals
  have hne : a.fd ≠ -1 := by omega
  have hlt : ¬ a.fd < 0 := by omega
  simp [acceptOne, all, andThen, socket, Sockets.perform, Sockets.put, hresult, hne, hlt, hfresh,
    hclient, hparameter, hpub, hnonblocking, handleNewPublisher, closings, EpollLoop.perform]

/-- **What is done with a connection.** -/
theorem safe_acceptOne (hfd : a.fd ≠ -1) (P : ℤ → Prop) : Actions.Safe Tidy (Frame P) (acceptOne a) := by
  refine .of_cases fun h ht => ?_
  by_cases hnot : a.fd < 0 ∨ a.fd ∈ h.sockets.descriptors
  · exact .inl (.impossible (acceptOne_impossible hfd ht hnot))
  · rw [not_or, not_lt] at hnot
    obtain ⟨hvalid, hfresh⟩ := hnot
    cases hnonblocking : a.nonblocking with
    | false =>
        refine .inr ⟨_, _, acceptOne_dropped ht hvalid hfresh hnonblocking, ht.calling _ fun h => h, ?_⟩
        exact .calling (fun h => h) rfl fun k _ hheld _ => hfresh (ht.mem hheld)
    | true =>
        cases hpub : h.sockets.objects (.publisher a.pub) with
        | some s => exact .inl (.impossible (acceptOne_occupied ht hvalid hfresh hpub hnonblocking))
        | none =>
            have hvacant : Sockets.Vacant (h.sockets.objects (.publisher a.pub)) :=
              hpub ▸ Sockets.vacant_none
            have hpassing : ¬ (Holder.publisher a.pub).Passing := by simp [Holder.Passing]
            refine .inr ⟨_, _, acceptOne_kept ht hvalid hfresh hpub hnonblocking, ?_, ?_⟩
            · exact (ht.holding hpassing hvacant hvalid hfresh).adding fun _ =>
                ⟨Sockets.objects_put_self, hvalid⟩
            · exact .taking ht hvacant hvalid hfresh

theorem safe_handleAccept (accepted : List Accepted) (P : ℤ → Prop) :
    Actions.Safe Tidy (Frame P) (handleAccept accepted) := by
  induction accepted with
  | nil => exact .nothing (Frame.composes P)
  | cons a accepted ih =>
      rw [handleAccept]
      split
      · exact .nothing (Frame.composes P)
      · rename_i hfd
        exact .andThen (Frame.composes P) (safe_acceptOne hfd P) ih

end Connections

/-! ### What is done with a client -/

section Clients

variable {h : Host} {k : Holder} {s : Socket} {id : ℕ} {refused : Option String} {P : ℤ → Prop}

theorem socket_create (hnone : h.sockets.objects k = none) :
    socket (.create k) h = .ok ({ h with sockets := h.sockets.put k (some Socket.new) }, []) := by
  simp [socket, Sockets.perform, hnone, closings, EpollLoop.perform]

theorem socket_close (hs : h.sockets.objects k = some s) : socket (.close k) h =
    .ok (shutting k (some s.close.1) h s, s.close.2.map .descriptor) := by
  simp [socket, Sockets.perform, hs, shutting]

theorem socket_destroy (hs : h.sockets.objects k = some s) : socket (.destroy k) h =
    .ok (shutting k none h s, s.close.2.map .descriptor) := by
  simp [socket, Sockets.perform, hs, shutting]

theorem assignNew_cases (fd : ℤ) (ht : h.Tidy) (hk : ¬ k.Passing) (hs : h.sockets.objects k = some s) :
    assignNew k fd h = .error .impossible ∨
      (assignNew k fd h = .ok (shutting k (some ⟨-1⟩) h s, s.close.2.map .descriptor)) ∨
      (0 ≤ fd ∧ fd ∉ h.sockets.descriptors ∧ assignNew k fd h =
        .ok (holding k (shutting k (some ⟨-1⟩) h s) fd,
          .descriptor (.opened fd) :: s.close.2.map .descriptor)) := by
  have htemporary := ht.arrived .temporary (.inl rfl)
  have hne : k ≠ .temporary := fun heq => hk (.inl heq)
  -- what the socket has been given on the way is not there any more
  have hobjects (fd : ℤ) : Function.update (Function.update (Function.update h.sockets.objects .temporary
      (some ⟨fd⟩)) k (some ⟨fd⟩)) .temporary none =
        Function.update h.sockets.objects k (some (⟨fd⟩ : Socket)) := by
    funext k'
    by_cases hk' : k' = .temporary
    · rw [hk', Function.update_self, Function.update_of_ne hne.symm, htemporary]
    · by_cases heq : k' = k
      · rw [heq, Function.update_of_ne hne, Function.update_self, Function.update_self]
      · rw [Function.update_of_ne hk', Function.update_of_ne heq, Function.update_of_ne hk',
          Function.update_of_ne heq]
  by_cases hminus : fd = -1
  · refine .inr (.inl ?_)
    by_cases hvalid : 0 ≤ s.fd
    · simp [assignNew, all, andThen, nothing, socket, Sockets.perform, Sockets.put, htemporary, hminus, hs,
        hne, Socket.close, Sockets.shut, hvalid, closings, EpollLoop.perform, shutting, hobjects]
    · simp [assignNew, all, andThen, nothing, socket, Sockets.perform, Sockets.put, htemporary, hminus, hs,
        hne, Socket.close, Sockets.shut, hvalid, closings, EpollLoop.perform, shutting, hobjects]
  · by_cases hnot : fd < 0 ∨ fd ∈ h.sockets.descriptors
    · refine .inl ?_
      simp [assignNew, all, andThen, socket, Sockets.perform, htemporary, hminus, hnot]
    · rw [not_or, not_lt] at hnot
      obtain ⟨hopened, hfresh⟩ := hnot
      have hlt := not_lt.2 hopened
      refine .inr (.inr ⟨hopened, hfresh, ?_⟩)
      by_cases hvalid : 0 ≤ s.fd
      · have hold : s.fd ≠ fd := by
          rintro rfl
          exact hfresh (ht.mem ⟨hs, hvalid⟩)
        simp [assignNew, all, andThen, nothing, socket, Sockets.perform, Sockets.put, htemporary, hminus,
          hfresh, hlt, hs, hne, Socket.close, Sockets.shut, hvalid, closings, EpollLoop.perform, shutting,
          holding, hobjects, Finset.erase_insert_of_ne hold.symm]
      · simp [assignNew, all, andThen, nothing, socket, Sockets.perform, Sockets.put, htemporary, hminus,
          hfresh, hlt, hs, hne, Socket.close, Sockets.shut, hvalid, closings, EpollLoop.perform, shutting,
          holding, hobjects]

theorem remove_eq (hs : h.sockets.objects k = some s) :
    remove k refused h = .ok (calling (fun fd => .remove fd refused) h s.fd, []) := by
  simp [remove, withFd, hs]

theorem not_passing_client : ¬ (Holder.client id).Passing := by simp [Holder.Passing]

theorem client_ne_publisher (pub : ℕ) : Holder.client id ≠ .publisher pub := by simp

theorem add_of_holds {events : UInt32} (hs : h.sockets.objects k = some s) :
    add k events refused h = .ok (adding k events refused h s.fd, []) := by
  simp [add, withFd, hs]

/-- `socket_.close()` and what goes before it, or nothing. -/
theorem cleanup_cases (refused : Option String) (ht : h.Tidy) (hs : h.sockets.objects (.client id) = some s) :
    ∃ h' out s', cleanup id refused h = .ok (h', out) ∧ h'.Tidy ∧ (∀ P, Frame P h out h') ∧
      h'.sockets.objects (.client id) = some s' := by
  unfold cleanup
  simp only [hs]
  split
  · rename_i hvalid
    have hremoved := @Tidy.calling h s.fd ht (fun fd => .remove fd refused) fun h => h
    refine ⟨_, _, s.close.1, Actions.andThen_ok (remove_eq hs) (socket_close hs), ?_, fun P => ?_,
      Sockets.objects_put_self⟩
    · exact hremoved.shutting not_passing_client hs (Sockets.vacant_closed s) fun pub heq =>
        absurd heq (client_ne_publisher pub)
    · have hfirst : Frame P h [] _ :=
        .calling (c := fun fd => .remove fd refused) (fun h => h) rfl (ht.apart_client hs)
      exact (Frame.composes P).trans hfirst (.shutting hs (hremoved.apart_client hs))
  · exact ⟨h, [], s, rfl, ht, fun P => (Frame.composes P).refl h, hs⟩

theorem safe_connect (fd : ℤ) (nonblocking connected : Bool) (P : ℤ → Prop) :
    Actions.Safe Tidy (Frame P) (connect id fd nonblocking connected refused) := by
  refine .of_cases fun h ht => ?_
  cases hs : h.sockets.objects (.client id) with
  | none => exact .inl (.undefined (by simp only [connect, hs]))
  | some s =>
      simp only [connect, hs]
      have hshut : (shutting (.client id) (some ⟨-1⟩) h s).Tidy :=
        ht.shutting not_passing_client hs Sockets.vacant_minus_one fun pub heq =>
          absurd heq (client_ne_publisher pub)
      have hframe (out : List HostEvent) : Frame P h out (shutting (.client id) (some ⟨-1⟩) h s) :=
        .shutting hs (ht.apart_client hs)
      have hobjects : (shutting (.client id) (some ⟨-1⟩) h s).sockets.objects (.client id) = some ⟨-1⟩ :=
        Sockets.objects_put_self
      rcases assignNew_cases fd ht not_passing_client hs with himpossible | hminus | hfresh
      · refine .inl (.impossible ?_)
        simp only [connect, hs]
        exact Actions.andThen_error himpossible
      · -- there is no socket, and nothing to add
        right
        split
        · refine ⟨_, _, Actions.andThen_ok hminus (add_of_holds hobjects), ?_, ?_⟩
          · exact hshut
          · exact hframe _
        · exact ⟨_, _, Actions.andThen_ok hminus rfl, hshut, hframe _⟩
      · right
        obtain ⟨hvalid, hnew, hdone⟩ := hfresh
        have hvacant : Sockets.Vacant
            ((shutting (.client id) (some ⟨-1⟩) h s).sockets.objects (.client id)) := by
          rw [hobjects]
          exact Sockets.vacant_minus_one
        have hnew' : fd ∉ (shutting (.client id) (some ⟨-1⟩) h s).sockets.descriptors := by
          intro hmem
          exact hnew (Sockets.mem_shut.1 hmem).1
        have hheld := hshut.holding not_passing_client hvacant hvalid hnew'
        split
        · refine ⟨_, _, Actions.andThen_ok hdone (add_of_holds Sockets.objects_put_self), ?_, ?_⟩
          · exact hheld.adding fun _ => ⟨Sockets.objects_put_self, hvalid⟩
          · exact (Frame.composes P).trans (hframe _) (.taking hshut hvacant hvalid hnew')
        · refine ⟨_, _, Actions.andThen_ok hdone rfl, hheld, ?_⟩
          exact (Frame.composes P).trans (hframe _) (.holding hvacant)

/-- **What is done with a client leaves the server alone.** -/
theorem safe_deed (d : ClientDeed) (P : ℤ → Prop) : Actions.Safe Tidy (Frame P) (deed d) := by
  cases d with
  | create id =>
      refine .of_cases fun h ht => ?_
      cases hs : h.sockets.objects (.client id) with
      | some s => exact .inl (.impossible (by simp [deed, socket, Sockets.perform, hs]))
      | none =>
          refine .inr ⟨_, _, socket_create hs, ?_, .placing hs⟩
          exact ht.placing not_passing_client hs client_ne_publisher
  | connect id fd nonblocking connected refused => exact safe_connect fd nonblocking connected P
  | modify id events refused =>
      refine .of_cases fun h ht => ?_
      cases hs : h.sockets.objects (.client id) with
      | none => exact .inl (.undefined (by simp [deed, setEvents, hs]))
      | some s =>
          refine .inr ⟨calling (fun fd => .modify fd events refused) h s.fd, [], ?_, ?_, ?_⟩
          · simp [deed, setEvents, modify, withFd, hs]
          · exact ht.calling _ fun h => h
          · exact .calling (fun h => h) rfl (ht.apart_client hs)
  | cleanup id refused =>
      refine .of_cases fun h ht => ?_
      cases hs : h.sockets.objects (.client id) with
      | none => exact .inl (.undefined (by simp [deed, cleanup, hs]))
      | some s =>
          obtain ⟨h', out, -, hdone, ht', hframe, -⟩ := cleanup_cases refused ht hs
          exact .inr ⟨h', out, hdone, ht', hframe P⟩
  | destroy id refused =>
      refine .of_cases fun h ht => ?_
      cases hs : h.sockets.objects (.client id) with
      | none => exact .inl (.undefined (Actions.andThen_error (by simp [cleanup, hs])))
      | some s =>
          obtain ⟨h', out, s', hdone, ht', hframe, hs'⟩ := cleanup_cases refused ht hs
          refine .inr ⟨_, _, Actions.andThen_ok hdone (socket_destroy hs'), ?_, ?_⟩
          · exact ht'.shutting not_passing_client hs' Sockets.vacant_none fun pub heq => rfl
          · exact (Frame.composes P).trans (hframe P) (.shutting hs' (ht'.apart_client hs'))
  | discard id =>
      refine .of_cases fun h ht => ?_
      cases hs : h.sockets.objects (.client id) with
      | none => exact .inl (.undefined (by simp [deed, discardClient, hs]))
      | some s =>
          have hdone : deed (.discard id) h =
              .ok (shutting (.client id) none h s, s.close.2.map .descriptor) := by
            simp only [deed, discardClient, hs]
            exact socket_destroy hs
          exact .inr ⟨_, _, hdone, ht.shutting not_passing_client hs Sockets.vacant_none fun _ _ => rfl,
            .shutting hs (ht.apart_client hs)⟩

theorem safe_deeds (deeds : List ClientDeed) (P : ℤ → Prop) :
    Actions.Safe Tidy (Frame P) (all (deeds.map deed)) := by
  refine .all (Frame.composes P) fun a ha => ?_
  obtain ⟨d, -, rfl⟩ := List.mem_map.1 ha
  exact safe_deed d P

end Clients

/-! ### The sockets of the program -/

section Performed

variable {h : Host} {k : Holder} {op : SocketOp Holder} {a b : Action Host HostEvent}

/-- What is done with the sockets is a sequence of their operations, and nothing else can be seen of it. -/
def Performs (h : Host) (out : List HostEvent) (h' : Host) : Prop :=
  ∃ events, out = events.map .descriptor ∧
    Machine.Does (Machine.ofFun fun s op => Sockets.perform op s) h.sockets events h'.sockets

theorem Performs.composes : Actions.Composes Performs where
  refl h := ⟨[], rfl, Machine.Does.nil⟩
  trans := by
    rintro h h₁ h₂ _ _ ⟨events₁, rfl, hdoes₁⟩ ⟨events₂, rfl, hdoes₂⟩
    exact ⟨events₁ ++ events₂, (List.map_append ..).symm, hdoes₁.trans hdoes₂⟩

/-- An action that does nothing else. -/
abbrev Performing (a : Action Host HostEvent) : Prop := Actions.Keeps (fun _ => True) Performs a

theorem performing_nothing : Performing nothing := .nothing Performs.composes

theorem performing_andThen (ha : Performing a) (hb : Performing b) : Performing (andThen a b) :=
  .andThen Performs.composes ha hb

theorem performing_cons {actions : List (Action Host HostEvent)} (ha : Performing a)
    (hall : Performing (all actions)) : Performing (all (a :: actions)) := performing_andThen ha hall

theorem performing_all {actions : List (Action Host HostEvent)} (h : ∀ a ∈ actions, Performing a) :
    Performing (all actions) := .all Performs.composes h

theorem performing_socket (op : SocketOp Holder) : Performing (socket op) := by
  intro h h' out _ hdone
  refine ⟨trivial, ?_⟩
  unfold socket at hdone
  cases hperform : Sockets.perform op h.sockets with
  | error f =>
      rw [hperform] at hdone
      cases hdone
  | ok result =>
      rw [hperform] at hdone
      obtain ⟨rfl, rfl⟩ := Prod.mk.inj (Except.ok.inj hdone)
      exact ⟨result.2, rfl, Machine.Does.of_step (i := op) hperform⟩

theorem performing_withFd {f : Host → ℤ → Host} (hf : ∀ h fd, (f h fd).sockets = h.sockets) :
    Performing (withFd k f) := by
  intro h h' out _ hdone
  refine ⟨trivial, ?_⟩
  unfold withFd at hdone
  cases hs : h.sockets.objects k with
  | none =>
      rw [hs] at hdone
      cases hdone
  | some s =>
      rw [hs] at hdone
      obtain ⟨rfl, rfl⟩ := Prod.mk.inj (Except.ok.inj hdone)
      refine ⟨[], rfl, ?_⟩
      rw [hf]
      exact Machine.Does.nil

theorem performing_add (k : Holder) (events : UInt32) (refused : Option String) :
    Performing (add k events refused) := by
  refine performing_withFd fun h fd => ?_
  unfold adding
  split <;> rfl

theorem performing_modify (k : Holder) (events : UInt32) (refused : Option String) :
    Performing (modify k events refused) := performing_withFd fun _ _ => rfl

theorem performing_remove (k : Holder) (refused : Option String) : Performing (remove k refused) :=
  performing_withFd fun _ _ => rfl

theorem performing_handleNewPublisher (a : Accepted) : Performing (handleNewPublisher a) :=
  performing_cons (performing_socket _) (performing_cons (performing_socket _)
    (performing_cons (performing_add _ _ _) performing_nothing))

theorem performing_acceptOne (a : Accepted) : Performing (acceptOne a) := by
  refine performing_cons (performing_socket _) (performing_cons (performing_socket _)
    (performing_cons ?_ (performing_cons (performing_socket _)
      (performing_cons (performing_socket _) performing_nothing))))
  split
  · exact performing_cons (performing_socket _) (performing_cons (performing_handleNewPublisher a)
      (performing_cons (performing_socket _) performing_nothing))
  · exact performing_nothing

theorem performing_handleAccept (accepted : List Accepted) : Performing (handleAccept accepted) := by
  induction accepted with
  | nil => exact performing_nothing
  | cons a accepted ih =>
      rw [handleAccept]
      split
      · exact performing_nothing
      · exact performing_andThen (performing_acceptOne a) ih

theorem performing_of_forall {a : Action Host HostEvent}
    (h : ∀ h, ∃ b, Performing b ∧ a h = b h) : Performing a := by
  intro s s' out hs hdone
  obtain ⟨b, hb, heq⟩ := h s
  exact hb s s' out hs (heq.symm.trans hdone)

theorem performing_error (f : Fault) : Performing fun _ => .error f := by
  intro h h' out _ hdone
  cases hdone

theorem performing_removePublisher (pub : ℕ) (refused : Option String) :
    Performing (removePublisher pub refused) := by
  refine performing_of_forall fun h => ?_
  unfold removePublisher
  split
  · exact ⟨nothing, performing_nothing, rfl⟩
  · exact ⟨_, performing_andThen (performing_remove _ _) (performing_socket _), rfl⟩

theorem performing_assignNew (k : Holder) (fd : ℤ) : Performing (assignNew k fd) :=
  performing_cons (performing_socket _) (performing_cons (performing_socket _)
    (performing_cons (performing_socket _) performing_nothing))

theorem performing_cleanup (id : ℕ) (refused : Option String) : Performing (cleanup id refused) := by
  refine performing_of_forall fun h => ?_
  unfold cleanup
  split
  · exact ⟨_, performing_error .undefined, rfl⟩
  · split
    · exact ⟨_, performing_andThen (performing_remove _ _) (performing_socket _), rfl⟩
    · exact ⟨nothing, performing_nothing, rfl⟩

theorem performing_connect (id : ℕ) (fd : ℤ) (nonblocking connected : Bool) (refused : Option String) :
    Performing (connect id fd nonblocking connected refused) := by
  refine performing_of_forall fun h => ?_
  unfold connect
  split
  · exact ⟨_, performing_error .undefined, rfl⟩
  · refine ⟨_, performing_andThen (performing_assignNew _ _) ?_, rfl⟩
    split
    · exact performing_add _ _ _
    · exact performing_nothing

theorem performing_setEvents (id : ℕ) (events : UInt32) (refused : Option String) :
    Performing (setEvents id events refused) := by
  refine performing_of_forall fun h => ?_
  unfold setEvents
  split
  · exact ⟨_, performing_error .undefined, rfl⟩
  · exact ⟨_, performing_modify _ _ _, rfl⟩

theorem performing_discardClient (id : ℕ) : Performing (discardClient id) := by
  refine performing_of_forall fun h => ?_
  unfold discardClient
  split
  · exact ⟨_, performing_error .undefined, rfl⟩
  · exact ⟨_, performing_socket _, rfl⟩

theorem performing_deed (d : ClientDeed) : Performing (deed d) := by
  cases d with
  | create id => exact performing_socket _
  | connect id fd nonblocking connected refused => exact performing_connect _ _ _ _ _
  | modify id events refused => exact performing_setEvents _ _ _
  | cleanup id refused => exact performing_cleanup id refused
  | destroy id refused => exact performing_andThen (performing_cleanup id refused) (performing_socket _)
  | discard id => exact performing_discardClient id

theorem performing_deeds (deeds : List ClientDeed) : Performing (all (deeds.map deed)) := by
  refine performing_all fun a ha => ?_
  obtain ⟨d, -, rfl⟩ := List.mem_map.1 ha
  exact performing_deed d

theorem performing_invoke (n : ℕ) (t : Ready) : Performing (invoke n t) := by
  refine performing_of_forall fun h => ?_
  unfold invoke
  split
  · exact ⟨_, performing_handleAccept t.accepted, rfl⟩
  · split
    · exact ⟨_, performing_error .dangling, rfl⟩
    · refine ⟨_, performing_andThen (performing_deeds t.deeds) ?_, rfl⟩
      split
      · exact performing_removePublisher _ _
      · exact performing_nothing
  · exact ⟨_, performing_deeds t.deeds, rfl⟩

end Performed

/-! ### A batch of events -/

section Batches

variable {h h' : Host} {t : Ready} {n : ℕ} {out : List HostEvent} {P : ℤ → Prop}

/-- What is known of an event whose turn is still to come: if its registration is one of the listening
socket or a publisher, that one still holds the descriptor and the callback is still there; and a
callback that keeps a publisher is there for the descriptor of this publisher. -/
structure Pending (h : Host) (t : Ready) : Prop where
  counted : t.number < h.loop.epoll.next
  own : ∀ k, h.captured t.number = some k → k.Standing →
    h.sockets.Holds k t.fd ∧ h.loop.callbacks t.fd = some t.number
  live : ∀ n pub, h.loop.callbacks t.fd = some n → h.captured n = some (.publisher pub) →
    h.sockets.Holds (.publisher pub) t.fd

theorem Tidy.pending (ht : h.Tidy) {r : Registration} (hr : h.loop.epoll.registered t.fd = some r)
    (hnumber : r.number = t.number) : Pending h t := by
  have hcallback := ht.sound.synced t.fd r hr
  obtain ⟨k, hcaptured, hheld⟩ := ht.registered t.fd r hr
  constructor
  · rw [← hnumber]
    exact ht.sound.counted t.fd _ hcallback
  · intro k' hcaptured' _
    rw [← hnumber, hcaptured] at hcaptured'
    obtain rfl := Option.some.inj hcaptured'
    exact ⟨hheld, hnumber ▸ hcallback⟩
  · intro n pub hn hpub
    obtain rfl := Option.some.inj (hcallback.symm.trans hn)
    rw [hcaptured] at hpub
    obtain rfl := Option.some.inj hpub
    exact hheld

theorem Tidy.reported (ht : h.Tidy) {batch : List Ready} (hmay : h.MayReport batch) :
    (∀ t ∈ batch, Pending h t) ∧ (batch.map Ready.fd).Nodup := by
  obtain ⟨-, hnodup, hreported⟩ := hmay
  rw [List.map_map] at hnodup
  refine ⟨fun t hmem => ?_, hnodup⟩
  obtain ⟨r, hr, hnumber⟩ := hreported _ (List.mem_map_of_mem hmem)
  exact ht.pending hr hnumber

theorem Pending.frame (hp : Pending h t) (hP : P t.fd) (hframe : Frame P h out h') : Pending h' t where
  counted := hp.counted.trans_le hframe.next
  own k hcaptured hk := by
    rw [hframe.captured _ hp.counted] at hcaptured
    obtain ⟨hheld, hcallback⟩ := hp.own k hcaptured hk
    obtain ⟨hheld', hsame⟩ := hframe.steady k t.fd hk hP hheld
    exact ⟨hheld', hsame.trans hcallback⟩
  live n pub hn hcaptured := by
    rcases hframe.renewed t.fd n pub hP hn hcaptured with ⟨hold, hcaptured'⟩ | hheld
    · exact (hframe.steady _ t.fd (.inr ⟨pub, rfl⟩) hP (hp.live n pub hold hcaptured')).1
    · exact hheld

theorem removePublisher_spec (ht : h.Tidy) {pub : ℕ} {fd : ℤ} (refused : Option String)
    (hheld : h.sockets.Holds (.publisher pub) fd) :
    ∃ h' out, removePublisher pub refused h = .ok (h', out) ∧ h'.Tidy ∧ Frame (· ≠ fd) h out h' := by
  have hs := hheld.1
  have hpassing : ¬ (Holder.publisher pub).Passing := by simp [Holder.Passing]
  have hremoved := @Tidy.calling h fd ht (fun fd => .remove fd refused) fun h => h
  have hdone : removePublisher pub refused h =
      .ok (shutting (.publisher pub) none (calling (fun fd => .remove fd refused) h fd) ⟨fd⟩,
        [] ++ (⟨fd⟩ : Socket).close.2.map .descriptor) := by
    unfold removePublisher
    simp only [hs]
    exact Actions.andThen_ok (remove_eq hs) (socket_destroy hs)
  refine ⟨_, _, hdone, ?_, ?_⟩
  · exact hremoved.shutting hpassing hs Sockets.vacant_none fun _ _ => rfl
  · have hfirst : Frame (· ≠ fd) h [] (calling (fun fd => .remove fd refused) h fd) :=
      .calling (fun h => h) rfl fun _ _ _ hne => hne rfl
    exact (Frame.composes _).trans hfirst (.shutting hs fun _ _ _ hne => hne rfl)

/-- **The callback of a publisher is invoked while the publisher is there**, and only the descriptor of
the event is touched. -/
theorem invoke_spec (ht : h.Tidy) (hp : Pending h t) (hn : h.loop.callbacks t.fd = some n) :
    invoke n t h ≠ .error .dangling ∧ ∀ h' out, invoke n t h = .ok (h', out) →
      h'.Tidy ∧ Frame (· ≠ t.fd) h out h' := by
  have hdeeds := safe_deeds t.deeds (· ≠ t.fd)
  unfold invoke
  split
  · have haccept := safe_handleAccept t.accepted (· ≠ t.fd)
    exact ⟨haccept.sane h ht, fun h' out => haccept.keeps h h' out ht⟩
  · rename_i pub hcaptured
    have hheld := hp.live n pub hn hcaptured
    simp only [hheld.1]
    have hall := safe_deeds t.deeds fun _ => True
    have hremove {h₁ : Host} {out₁ : List HostEvent}
        (hdone : all (t.deeds.map deed) h = .ok (h₁, out₁)) :
        ∃ h₂ out₂, (if t.ends then removePublisher pub t.refused else nothing) h₁ = .ok (h₂, out₂) ∧
          h₂.Tidy ∧ Frame (· ≠ t.fd) h₁ out₂ h₂ := by
      obtain ⟨ht₁, hframe⟩ := hall.keeps h h₁ out₁ ht hdone
      cases t.ends with
      | false => exact ⟨h₁, [], rfl, ht₁, (Frame.composes _).refl h₁⟩
      | true =>
          exact removePublisher_spec ht₁ t.refused
            (hframe.steady _ t.fd (.inr ⟨pub, rfl⟩) trivial hheld).1
    constructor
    · refine Actions.andThen_ne_dangling (hdeeds.sane h ht) fun h₁ out₁ hdone hdangling => ?_
      obtain ⟨h₂, out₂, hok, -⟩ := hremove hdone
      rw [hok] at hdangling
      cases hdangling
    · intro h' out hdone
      obtain ⟨h₁, out₁, out₂, hfirst, hsecond, rfl⟩ := Actions.of_andThen hdone
      obtain ⟨h₂, out₂', hok, ht₂, hframe₂⟩ := hremove hfirst
      obtain ⟨rfl, rfl⟩ := Prod.mk.inj (Except.ok.inj (hok.symm.trans hsecond))
      exact ⟨ht₂, (Frame.composes _).trans (hdeeds.keeps h h₁ out₁ ht hfirst).2 hframe₂⟩
  · exact ⟨hdeeds.sane h ht, fun h' out => hdeeds.keeps h h' out ht⟩

/-- Every event of the listening socket or a publisher has reached its callback. -/
def Reached (h : Host) (out : List HostEvent) : Prop :=
  ∀ fd reported n, .invoked fd reported n ∈ out → reported < h.loop.epoll.next ∧
    ∀ k, h.captured reported = some k → k.Standing → n = reported

theorem reached_nil : Reached h [] := fun _ _ _ hmem => absurd hmem List.not_mem_nil

theorem Reached.append {out₁ out₂ : List HostEvent} (h₁ : Reached h out₁) (h₂ : Reached h out₂) :
    Reached h (out₁ ++ out₂) := by
  intro fd reported n hmem
  rcases List.mem_append.1 hmem with hmem₁ | hmem₂
  · exact h₁ fd reported n hmem₁
  · exact h₂ fd reported n hmem₂

theorem Reached.frame {out₁ : List HostEvent} (hreached : Reached h out₁) (hframe : Frame P h out h') :
    Reached h' out₁ := by
  intro fd reported n hmem
  obtain ⟨hlt, hall⟩ := hreached fd reported n hmem
  refine ⟨hlt.trans_le hframe.next, fun k hcaptured hk => hall k ?_ hk⟩
  rwa [hframe.captured reported hlt] at hcaptured

/-- **The turn of an event.**  An event of the listening socket or a publisher reaches its callback. -/
theorem turn_spec (ht : h.Tidy) (hp : Pending h t) :
    turn t h ≠ .error .dangling ∧ ∀ h' out, turn t h = .ok (h', out) →
      h'.Tidy ∧ Frame (· ≠ t.fd) h out h' ∧ Reached h' out := by
  unfold turn
  cases hn : h.loop.callbacks t.fd with
  | none =>
      refine ⟨Actions.ok_ne_dangling, fun h' out hdone => ?_⟩
      obtain ⟨rfl, rfl⟩ := Prod.mk.inj (Except.ok.inj hdone)
      exact ⟨ht, (Frame.composes _).refl h, reached_nil⟩
  | some n =>
      obtain ⟨hsane, hkeeps⟩ := invoke_spec ht hp hn
      constructor
      · refine Actions.andThen_ne_dangling Actions.ok_ne_dangling fun h₁ out₁ hfirst => ?_
        obtain ⟨rfl, -⟩ := Prod.mk.inj (Except.ok.inj hfirst)
        exact hsane
      · intro h' out hdone
        obtain ⟨h₁, out₁, out₂, hfirst, hsecond, rfl⟩ := Actions.of_andThen hdone
        obtain ⟨rfl, rfl⟩ := Prod.mk.inj (Except.ok.inj hfirst)
        obtain ⟨ht', hframe⟩ := hkeeps h' out₂ hsecond
        refine ⟨ht', ⟨hframe.steady, hframe.next, hframe.captured, hframe.renewed⟩, ?_⟩
        intro fd reported n' hmem
        rcases List.mem_cons.1 hmem with heq | hrest
        · obtain ⟨-, rfl, rfl⟩ := HostEvent.invoked.inj heq
          refine ⟨hp.counted.trans_le hframe.next, fun k hcaptured hk => ?_⟩
          rw [hframe.captured _ hp.counted] at hcaptured
          exact Option.some.inj (hn.symm.trans (hp.own k hcaptured hk).2)
        · obtain ⟨events, rfl, -⟩ := (performing_invoke n t h h' out₂ trivial hsecond).2
          simp at hrest

/-- **A batch of events.**  Only the descriptors of the batch are touched by the callbacks of publishers. -/
theorem dispatch_spec {batch : List Ready} (ht : h.Tidy) (hpending : ∀ t ∈ batch, Pending h t)
    (hnodup : (batch.map Ready.fd).Nodup) :
    dispatch batch h ≠ .error .dangling ∧ ∀ h' out, dispatch batch h = .ok (h', out) →
      h'.Tidy ∧ Frame (· ∉ batch.map Ready.fd) h out h' ∧ Reached h' out := by
  induction batch generalizing h with
  | nil =>
      refine ⟨Actions.ok_ne_dangling, fun h' out hdone => ?_⟩
      obtain ⟨rfl, rfl⟩ := Prod.mk.inj (Except.ok.inj hdone)
      exact ⟨ht, (Frame.composes _).refl h, reached_nil⟩
  | cons t batch ih =>
      obtain ⟨hsane, hkeeps⟩ := turn_spec ht (hpending t List.mem_cons_self)
      rw [List.map_cons, List.nodup_cons] at hnodup
      -- the events behind it are those of other descriptors
      have hrest {h₁ : Host} {out₁ : List HostEvent} (hfirst : turn t h = .ok (h₁, out₁)) :
          ∀ t' ∈ batch, Pending h₁ t' := by
        intro t' ht'
        refine (hpending t' (List.mem_cons_of_mem _ ht')).frame ?_ (hkeeps h₁ out₁ hfirst).2.1
        intro heq
        exact hnodup.1 (heq ▸ List.mem_map_of_mem ht')
      constructor
      · refine Actions.andThen_ne_dangling hsane fun h₁ out₁ hfirst => ?_
        exact (ih (hkeeps h₁ out₁ hfirst).1 (hrest hfirst) hnodup.2).1
      · intro h' out hdone
        obtain ⟨h₁, out₁, out₂, hfirst, hsecond, rfl⟩ := Actions.of_andThen hdone
        obtain ⟨ht₁, hframe₁, hreached₁⟩ := hkeeps h₁ out₁ hfirst
        obtain ⟨ht', hframe₂, hreached₂⟩ := (ih ht₁ (hrest hfirst) hnodup.2).2 h' out₂ hsecond
        refine ⟨ht', (Frame.composes _).trans (hframe₁.mono fun fd hfd heq => hfd ?_)
          (hframe₂.mono fun fd hfd hmem => hfd ?_), (hreached₁.frame hframe₂).append hreached₂⟩
        · rw [heq]
          exact List.mem_cons_self
        · exact List.mem_cons_of_mem _ hmem

/-- The event is handled by the callback of the registration that it is reported for, and who registered
it holds the descriptor. -/
structure Reaches (h : Host) (k : Holder) (t : Ready) : Prop where
  held : h.sockets.Holds k t.fd
  found : h.loop.callbacks t.fd = some t.number
  captured : h.captured t.number = some k

/-- **No callback gets in the way of an event**: when the events before it have had their turns, an event of
the listening socket or a publisher still reaches its callback. -/
theorem reaches_dispatch {before after : List Ready} {k : Holder} {h₁ : Host} {out₁ : List HostEvent}
    (ht : h.Tidy) (hmay : h.MayReport (before ++ t :: after)) (hk : h.captured t.number = some k)
    (hstanding : k.Standing) (hdone : dispatch before h = .ok (h₁, out₁)) : Reaches h₁ k t := by
  obtain ⟨hpending, hnodup⟩ := ht.reported hmay
  rw [List.map_append, List.map_cons] at hnodup
  have hother : t.fd ∉ before.map Ready.fd := fun hmem =>
    (List.nodup_append.1 hnodup).2.2 _ hmem _ List.mem_cons_self rfl
  have hbefore : ∀ t' ∈ before, Pending h t' := fun t' ht' => hpending t' (List.mem_append_left _ ht')
  obtain ⟨-, hframe, -⟩ :=
    (dispatch_spec ht hbefore (List.nodup_append.1 hnodup).1).2 h₁ out₁ hdone
  have hp := hpending t (List.mem_append_right _ List.mem_cons_self)
  have hk₁ : h₁.captured t.number = some k := (hframe.captured _ hp.counted).trans hk
  obtain ⟨hheld, hfound⟩ := (hp.frame hother hframe).own k hk₁ hstanding
  exact ⟨hheld, hfound, hk₁⟩

theorem Reaches.invoked {k : Holder} (hreaches : Reaches h k t) (hdone : turn t h = .ok (h', out)) :
    .invoked t.fd t.number t.number ∈ out := by
  unfold turn at hdone
  rw [hreaches.found] at hdone
  obtain ⟨h₁, out₁, out₂, hfirst, -, rfl⟩ := Actions.of_andThen hdone
  obtain ⟨-, rfl⟩ := Prod.mk.inj (Except.ok.inj hfirst)
  exact List.mem_cons_self

end Batches

/-! ### Runs -/

section Runs

variable {h₀ h h' : Host} {i : Input} {fd : ℤ} {a : StartAnswers} {out out₀ : List HostEvent}
  {trace : List (Moment Host Input HostEvent)}

def descriptorsOf (out : List HostEvent) : List DescriptorEvent :=
  out.filterMap fun
    | .descriptor e => some e
    | .invoked _ _ _ => none

theorem descriptorsOf_append (out₁ out₂ : List HostEvent) :
    descriptorsOf (out₁ ++ out₂) = descriptorsOf out₁ ++ descriptorsOf out₂ := List.filterMap_append ..

theorem descriptorsOf_map (events : List DescriptorEvent) :
    descriptorsOf (events.map .descriptor) = events := by
  simp [descriptorsOf, List.filterMap_map]

/-- The sockets are those of a run of operations, which has opened and closed what can be seen. -/
def Traces (h : Host) (out : List HostEvent) (h' : Host) : Prop :=
  Machine.Does (Machine.ofFun fun s op => Sockets.perform op s) h.sockets (descriptorsOf out) h'.sockets

theorem Traces.composes : Actions.Composes Traces where
  refl h := Machine.Does.nil
  trans {h h₁ h₂ out₁ out₂} hfirst hsecond := by
    rw [Traces, descriptorsOf_append]
    exact hfirst.trans hsecond

theorem Performs.traces (hperforms : Performs h out h') : Traces h out h' := by
  obtain ⟨events, rfl, hdoes⟩ := hperforms
  rwa [Traces, descriptorsOf_map]

theorem traces_dispatch (batch : List Ready) : Actions.Keeps (fun _ => True) Traces (dispatch batch) := by
  refine .all Traces.composes fun b hb => ?_
  obtain ⟨t, -, rfl⟩ := List.mem_map.1 hb
  intro h h' out _ hdone
  refine ⟨trivial, ?_⟩
  unfold turn at hdone
  cases hn : h.loop.callbacks t.fd with
  | none =>
      rw [hn] at hdone
      obtain ⟨rfl, rfl⟩ := Prod.mk.inj (Except.ok.inj hdone)
      exact Traces.composes.refl h
  | some n =>
      rw [hn] at hdone
      obtain ⟨h₁, out₁, out₂, hfirst, hsecond, rfl⟩ := Actions.of_andThen hdone
      obtain ⟨rfl, rfl⟩ := Prod.mk.inj (Except.ok.inj hfirst)
      exact (performing_invoke n t h h' out₂ trivial hsecond).2.traces

/-- **What a step keeps.** -/
theorem Tidy.step (ht : h.Tidy) (hstep : Step h i out h') :
    h'.Tidy ∧ Frame (fun _ => False) h out h' ∧ Reached h' out ∧ Traces h out h' := by
  cases hstep with
  | @deeds _ _ deeds _ hdone =>
      obtain ⟨ht', hframe⟩ := (safe_deeds deeds fun _ => False).keeps h h' out ht hdone
      have hperforms := (performing_deeds deeds h h' out trivial hdone).2
      refine ⟨ht', hframe, fun fd reported n hmem => ?_, hperforms.traces⟩
      obtain ⟨events, rfl, -⟩ := hperforms
      simp at hmem
  | @batch _ _ batch _ hmay hdone =>
      obtain ⟨hpending, hnodup⟩ := ht.reported hmay
      obtain ⟨ht', hframe, hreached⟩ := (dispatch_spec ht hpending hnodup).2 h' out hdone
      exact ⟨ht', hframe.mono fun fd (hfalse : False) => hfalse.elim, hreached,
        (traces_dispatch batch h h' out trivial hdone).2⟩

/-- **What a run keeps.** -/
theorem Tidy.run (ht : h₀.Tidy) (hrun : Run Step h₀ trace h) :
    h.Tidy ∧ Reached h (Machine.outputs trace) ∧ Traces h₀ (Machine.outputs trace) h := by
  induction hrun with
  | nil => exact ⟨ht, reached_nil, Traces.composes.refl h₀⟩
  | snoc _ hstep ih =>
      obtain ⟨ht₁, hreached, htraces⟩ := ih
      obtain ⟨ht', hframe, hreached', htraces'⟩ := ht₁.step hstep
      rw [Machine.outputs_snoc]
      exact ⟨ht', (hreached.frame hframe).append hreached', Traces.composes.trans htraces htraces'⟩

theorem tidy_new : new.Tidy where
  owned := .empty
  sound := .new
  arrived _ _ := rfl
  valid pub s hs := by cases hs
  registered fd r hr := by cases hr
  known fd n hn := by cases hn

theorem not_passing_listener : ¬ Holder.listener.Passing := by simp [Holder.Passing]

theorem listener_ne_publisher (pub : ℕ) : Holder.listener ≠ .publisher pub := by simp

theorem tidy_startServer (hstart : startServer fd a new = .ok (h₀, out₀)) :
    h₀.Tidy ∧ Traces new out₀ h₀ := by
  obtain ⟨h₁, out₁, out₂, hcreate, hstarted, rfl⟩ := Actions.of_andThen hstart
  have hsafe : h₁.Tidy ∧ ∃ s, h₁.sockets.objects .listener = some s := by
    obtain ⟨h₂, out₃, out₄, hplace, hassign, rfl⟩ := Actions.of_andThen hcreate
    obtain ⟨rfl, -⟩ := Prod.mk.inj (Except.ok.inj ((socket_create rfl).symm.trans hplace))
    have ht₂ := tidy_new.placing not_passing_listener rfl listener_ne_publisher
    have hpub : ∀ pub, Holder.listener = .publisher pub → some (⟨-1⟩ : Socket) = none :=
      fun pub heq => absurd heq (listener_ne_publisher pub)
    have hs : (new.sockets.put .listener (some Socket.new)).objects .listener = some Socket.new :=
      Sockets.objects_put_self
    rcases assignNew_cases fd ht₂ not_passing_listener hs with himpossible | hminus | ⟨hvalid, hnew, hdone⟩
    · rw [himpossible] at hassign
      cases hassign
    · obtain ⟨rfl, -⟩ := Prod.mk.inj (Except.ok.inj (hminus.symm.trans hassign))
      exact ⟨ht₂.shutting not_passing_listener hs Sockets.vacant_minus_one hpub, _,
        Sockets.objects_put_self⟩
    · obtain ⟨rfl, -⟩ := Prod.mk.inj (Except.ok.inj (hdone.symm.trans hassign))
      have hshut := ht₂.shutting not_passing_listener hs Sockets.vacant_minus_one hpub
      have hnew' : fd ∉ (shutting .listener (some ⟨-1⟩) _ Socket.new).sockets.descriptors :=
        fun hmem => hnew (Sockets.mem_shut.1 hmem).1
      refine ⟨hshut.holding not_passing_listener ?_ hvalid hnew', _, objects_holding⟩
      exact fun fd' heq => Sockets.vacant_minus_one fd' (Sockets.objects_put_self.symm.trans heq)
  have hcreated : Performing (createServer fd) :=
    performing_andThen (performing_socket _) (performing_assignNew _ _)
  obtain ⟨ht₁, s, hs⟩ := hsafe
  have hfirst := (hcreated new h₁ out₁ trivial hcreate).2
  unfold start at hstarted
  split at hstarted
  · have hsecond := (performing_add .listener epollIn a.refused h₁ h₀ out₂ trivial hstarted).2
    refine ⟨?_, (Performs.composes.trans hfirst hsecond).traces⟩
    obtain ⟨rfl, -⟩ := Prod.mk.inj (Except.ok.inj ((add_of_holds hs).symm.trans hstarted))
    exact ht₁.adding fun hvalid => ⟨hs, hvalid⟩
  · obtain ⟨rfl, rfl⟩ := Prod.mk.inj (Except.ok.inj hstarted)
    exact ⟨ht₁, by simpa using hfirst.traces⟩

/-- An entry of `callbacks_`: it is that of the registration of the descriptor, and its callback is one of who
holds the descriptor; or it has been left over, and there is no registration. -/
def Entry (h : Host) (fd : ℤ) (n : ℕ) : Prop :=
  ∃ k, h.captured n = some k ∧
    ((∃ r, h.loop.epoll.registered fd = some r ∧ r.number = n ∧ h.sockets.Holds k fd) ∨
      h.loop.epoll.registered fd = none)

theorem Tidy.entry (ht : h.Tidy) {n : ℕ} (hn : h.loop.callbacks fd = some n) : Entry h fd n := by
  obtain ⟨k, hk⟩ := ht.known fd n hn
  refine ⟨k, hk, ?_⟩
  cases hr : h.loop.epoll.registered fd with
  | none => exact .inr rfl
  | some r =>
      obtain rfl : n = r.number := Option.some.inj (hn.symm.trans (ht.sound.synced fd r hr))
      obtain ⟨k', hk', hheld⟩ := ht.registered fd r hr
      obtain rfl := Option.some.inj (hk.symm.trans hk')
      exact .inl ⟨r, rfl, rfl, hheld⟩

/-- **The descriptors are accounted for.**  Whatever is accepted, removed and done with clients: what has
been opened and not been closed since is held by the listening socket, by one publisher or by one
client; a registration is one of who holds the descriptor, and has its entry in `callbacks_`; an entry that
is not that of a registration is left over, and has none; and nothing is closed that is not open. -/
theorem descriptors_accounted (hstart : startServer fd a new = .ok (h₀, out₀))
    (hrun : Run Step h₀ trace h) :
    (∀ fd, Sockets.Open fd (descriptorsOf (out₀ ++ Machine.outputs trace)) ↔
      ∃! k, h.sockets.Holds k fd) ∧
      (∀ k fd, h.sockets.Holds k fd → ¬ k.Passing) ∧
      (∀ fd r, h.loop.epoll.registered fd = some r → h.loop.callbacks fd = some r.number ∧
        ∃ k, h.captured r.number = some k ∧ h.sockets.Holds k fd) ∧
      (∀ fd n, h.loop.callbacks fd = some n → Entry h fd n) ∧
      Machine.Obeys (fun before e => ∀ fd, e = .closed fd → Sockets.Open fd before)
        (descriptorsOf (out₀ ++ Machine.outputs trace)) := by
  obtain ⟨ht₀, htraces₀⟩ := tidy_startServer hstart
  obtain ⟨ht, -, htraces⟩ := ht₀.run hrun
  obtain ⟨moments, hsockets, hlog⟩ := Traces.composes.trans htraces₀ htraces
  obtain ⟨howned, hledger⟩ := Sockets.owned_of_run hsockets
  rw [hlog] at hledger
  refine ⟨fun fd => ?_, fun k fd hheld => ht.not_passing hheld,
    fun fd r hr => ⟨ht.sound.synced fd r hr, ht.registered fd r hr⟩, fun fd n hn => ht.entry hn,
    hledger.closed⟩
  rw [← hledger.open_iff, howned.mem_iff]

/-- A server that listens at the descriptor 3. -/
def sampleStart : StartAnswers := ⟨true, true, true, true, none⟩

/-- A connection is accepted, with the descriptor 7. -/
def sampleAccept : List Ready := [⟨3, 0, 1, [⟨7, true, 0, none⟩], [], false, none⟩]

/-- The pusher of the client 1 is replaced by that of the client 2: the client 1 cleans up, which creates the
client 3 and connects it, and goes on with its own destruction in the memory of that one. -/
def sampleReplaced : List ClientDeed :=
  [.create 1, .connect 1 8 true true none, .create 2, .connect 2 9 true true none, .cleanup 1 none,
    .destroy 1 none, .create 3, .connect 3 8 true true none, .discard 3]

/-- What the kernel has registered after the start is the listening socket. -/
theorem mayReport_sampleAccept {h₀ : Host} {out₀ : List HostEvent}
    (hstart : startServer 3 sampleStart new = .ok (h₀, out₀)) : h₀.MayReport sampleAccept := by
  obtain ⟨rfl, -⟩ := Prod.mk.inj (Except.ok.inj (hstart.symm.trans rfl))
  refine ⟨by decide, by decide, fun t ht => ?_⟩
  obtain rfl := List.mem_singleton.1 ht
  exact ⟨⟨0, 1⟩, rfl, rfl⟩

/-- A pusher has been replaced, and an entry of `callbacks_` has been left over. -/
theorem exists_replaced : ∃ h₀ out₀ trace h,
    startServer 3 sampleStart new = .ok (h₀, out₀) ∧ Run Step h₀ trace h ∧
    descriptorsOf (out₀ ++ Machine.outputs trace) = [.opened 3, .opened 7, .opened 8, .opened 9,
      .closed 8, .opened 8, .closed 8] ∧ h.loop.callbacks 8 = some 4 ∧
    h.loop.epoll.registered 8 = none := by
  have hall : (andThen (startServer 3 sampleStart) (andThen (dispatch sampleAccept)
      (all (sampleReplaced.map deed))) new).toOption.map (fun r => (descriptorsOf r.2,
        r.1.loop.callbacks 8, (r.1.loop.epoll.registered 8).isNone)) =
      some ([.opened 3, .opened 7, .opened 8, .opened 9, .closed 8, .opened 8, .closed 8], some 4,
        true) := by
    decide +kernel
  cases hdone : andThen (startServer 3 sampleStart) (andThen (dispatch sampleAccept)
      (all (sampleReplaced.map deed))) new with
  | error f =>
      rw [hdone] at hall
      cases hall
  | ok r =>
      obtain ⟨h, out⟩ := r
      rw [hdone] at hall
      obtain ⟨hlog, hrest⟩ := Prod.mk.inj (Option.some.inj hall)
      obtain ⟨hcallback, hnone⟩ := Prod.mk.inj hrest
      obtain ⟨h₀, out₀, out', hstart, hthen, rfl⟩ := Actions.of_andThen hdone
      obtain ⟨h₁, out₁, out₂, hbatch, hdeeds, rfl⟩ := Actions.of_andThen hthen
      have hfirst := Run.nil.snoc (.batch (mayReport_sampleAccept hstart) hbatch : Step ..)
      refine ⟨h₀, out₀, _, h, hstart, hfirst.snoc (.deeds hdeeds), ?_, hcallback,
        Option.isNone_iff_eq_none.1 hnone⟩
      rw [Machine.outputs_snoc, Machine.outputs_snoc]
      exact hlog

/-- The new client has its descriptor; that of the one that has been discarded is closed, and its entry is
still there. -/
theorem descriptors_accounted_replaced : ∃ h₀ out₀ trace h,
    startServer 3 sampleStart new = .ok (h₀, out₀) ∧ Run Step h₀ trace h ∧
    (∃! k, h.sockets.Holds k 9) ∧ h.loop.callbacks 8 = some 4 ∧ Entry h 8 4 ∧
    h.loop.epoll.registered 8 = none := by
  obtain ⟨h₀, out₀, trace, h, hstart, hrun, hlog, hcallback, hnone⟩ := exists_replaced
  obtain ⟨hopen, -, -, hentry, -⟩ := descriptors_accounted hstart hrun
  refine ⟨h₀, out₀, trace, h, hstart, hrun, (hopen 9).1 ?_, hcallback, hentry 8 4 hcallback, hnone⟩
  rw [hlog]
  exact ⟨[.opened 3, .opened 7, .opened 8], .opened 9, [.closed 8, .opened 8, .closed 8], rfl, rfl,
    by decide⟩

/-- **The events of the server reach their callbacks.**  No batch makes the program use a publisher that
has been removed.  An event that is reported for the listening socket or for a publisher has its turn with
the callback that came with this registration, whatever the callbacks before it have done, as far as
that is defined; and it is handled by this callback and no other. -/
theorem events_reach_publishers (hstart : startServer fd a new = .ok (h₀, out₀))
    (hrun : Run Step h₀ trace h) :
    (∀ batch, h.MayReport batch → dispatch batch h ≠ .error .dangling ∧
      ∀ before t after k, batch = before ++ t :: after → h.captured t.number = some k → k.Standing →
        ∀ h₁ out₁, dispatch before h = .ok (h₁, out₁) → Reaches h₁ k t) ∧
      (∀ m ∈ trace, ∀ batch, m.input = .batch batch → ∀ t ∈ batch, ∀ k,
        m.state.captured t.number = some k → k.Standing →
          .invoked t.fd t.number t.number ∈ m.outputs) ∧
      ∀ fd reported n, .invoked fd reported n ∈ Machine.outputs trace →
        ∀ k, h.captured reported = some k → k.Standing → n = reported := by
  have ht₀ := (tidy_startServer hstart).1
  obtain ⟨ht, hreached, -⟩ := ht₀.run hrun
  refine ⟨fun batch hmay => ⟨?_, ?_⟩, ?_, fun fd reported n hmem => (hreached fd reported n hmem).2⟩
  · obtain ⟨hpending, hnodup⟩ := ht.reported hmay
    exact (dispatch_spec ht hpending hnodup).1
  · rintro before t after k rfl hk hstanding h₁ out₁ hdone
    exact reaches_dispatch ht hmay hk hstanding hdone
  · intro m hm batch hinput t hmem k hk hstanding
    obtain ⟨earlier, later, rfl⟩ := List.append_of_mem hm
    obtain ⟨hearlier, h', hstep, -⟩ := hrun.split
    have htidy := (ht₀.run hearlier).1
    obtain ⟨before, after, rfl⟩ := List.append_of_mem hmem
    rw [hinput] at hstep
    generalize hout : m.outputs = log at hstep
    cases hstep with
    | batch hmay hdone =>
        -- the events before it, its own turn, and the events behind it
        rw [dispatch, List.map_append, List.map_cons] at hdone
        obtain ⟨h₁, out₁, out₂, hbefore, hbehind, rfl⟩ := Actions.of_all_append hdone
        obtain ⟨h₂, out₃, out₄, hturn, -, rfl⟩ := Actions.of_andThen hbehind
        have hinvoked := (reaches_dispatch htidy hmay hk hstanding hbefore).invoked hturn
        exact List.mem_append_right _ (List.mem_append_left _ hinvoked)

/-- Another connection comes in. -/
def sampleSecond : Ready := ⟨3, 0, 1, [⟨8, true, 1, none⟩], [], false, none⟩

/-- The client of the first connection hangs up. -/
def sampleHangUp : Ready := ⟨7, 1, 0x011, [], [], true, none⟩

theorem exists_second : ∃ h₀ out₀ trace h h₁ out₁,
    startServer 3 sampleStart new = .ok (h₀, out₀) ∧ Run Step h₀ trace h ∧
    h.MayReport [sampleSecond, sampleHangUp] ∧ h.captured 1 = some (.publisher 0) ∧
    dispatch [sampleSecond] h = .ok (h₁, out₁) := by
  have hsecond : (andThen (startServer 3 sampleStart) (andThen (dispatch sampleAccept)
      (dispatch [sampleSecond])) new).isOk = true := by
    decide +kernel
  have hfirst : (andThen (startServer 3 sampleStart) (dispatch sampleAccept) new).toOption.map
      (fun r => ((r.1.loop.epoll.registered 3).map Registration.number,
        (r.1.loop.epoll.registered 7).map Registration.number, r.1.captured 1)) =
      some (some 0, some 1, some (.publisher 0)) := by
    decide +kernel
  cases hdone : andThen (startServer 3 sampleStart) (andThen (dispatch sampleAccept)
      (dispatch [sampleSecond])) new with
  | error f =>
      rw [hdone] at hsecond
      cases hsecond
  | ok r =>
      obtain ⟨h₀, out₀, out', hstart, hthen, -⟩ := Actions.of_andThen hdone
      obtain ⟨h, out₁, out₂, hbatch, hlast, -⟩ := Actions.of_andThen hthen
      rw [Actions.andThen_ok hstart hbatch] at hfirst
      obtain ⟨hlistener, hrest⟩ := Prod.mk.inj (Option.some.inj hfirst)
      obtain ⟨hpublisher, hcaptured⟩ := Prod.mk.inj hrest
      have hrun := Run.nil.snoc (.batch (mayReport_sampleAccept hstart) hbatch : Step ..)
      refine ⟨h₀, out₀, _, h, _, _, hstart, hrun, ⟨by decide, by decide, fun t ht => ?_⟩, hcaptured,
        hlast⟩
      rcases List.mem_pair.1 ht with rfl | rfl
      · exact Option.map_eq_some_iff.1 hlistener
      · exact Option.map_eq_some_iff.1 hpublisher

/-- When the second connection has been accepted, the first publisher is told of its end. -/
theorem events_reach_publishers_second : ∃ h₀ out₀ trace h h₁ out₁,
    startServer 3 sampleStart new = .ok (h₀, out₀) ∧ Run Step h₀ trace h ∧
    h.MayReport [sampleSecond, sampleHangUp] ∧
    dispatch [sampleSecond, sampleHangUp] h ≠ .error .dangling ∧
    dispatch [sampleSecond] h = .ok (h₁, out₁) ∧ Reaches h₁ (.publisher 0) sampleHangUp := by
  obtain ⟨h₀, out₀, trace, h, h₁, out₁, hstart, hrun, hmay, hcaptured, hdone⟩ := exists_second
  obtain ⟨hsane, hreaches⟩ := (events_reach_publishers hstart hrun).1 _ hmay
  exact ⟨h₀, out₀, trace, h, h₁, out₁, hstart, hrun, hmay, hsane, hdone,
    hreaches [sampleSecond] sampleHangUp [] _ rfl hcaptured (.inr ⟨0, rfl⟩) h₁ out₁ hdone⟩

end Runs

end Host
