/-
**The server, its connections and the event loop.**

`Server::handle_accept` takes connections from the listening socket until `accept` answers with an error.
Each of them is a `Socket` that goes through a result, a variable and a parameter, and ends in a new
`Publisher`; the event loop is given a callback that keeps the address of the publisher.  Only this
callback removes the publisher again, and with it the registration and the socket.  The other
descriptors of the program belong to clients: those of pushers, and those of the outputs.

What `accept`, `socket`, `fcntl`, `connect` and `epoll_ctl` answer, at which address a publisher is
created, and which events are reported, are inputs; so is what is done with clients, and when.  A callback
is known by the registration that it came with, and what it keeps is the object whose member it calls.

Clients are not always there when they are used: `create_pusher` destroys the pusher that it replaces, and
with it a client that calls back into this very pusher.  What is done with a client that is gone is
undefined.

Everything that is done comes down to a few changes for one descriptor each: it is held, added to the
loop, called the loop with, or closed.  This module says what each of them leaves as it was.

Main definitions:

* `Host`, `Host.socket`, `Host.add`, `Host.remove` — sockets and the event loop together;
* `Host.startServer`, `Host.handleAccept`, `Host.removePublisher` — the server;
* `Host.connect`, `Host.cleanup`, `Host.deed` — what is done with clients;
* `Host.dispatch`, `Host.Step` — a batch of events, and the program;
* `Host.Tidy` — what holds at any time;
* `Host.Frame` — what is left alone.

Main results:

* `EpollLoop.call_other`, `EpollLoop.call_fewer` — what a call on the loop changes;
* `Host.Frame.composes` — what is left alone by the one and the other is left alone by both;
* `Host.Tidy.holding`, `Host.Tidy.adding`, `Host.Tidy.calling`, `Host.Tidy.shutting` — the changes keep
  what holds at any time;
* `Host.Frame.taking`, `Host.Frame.calling`, `Host.Frame.shutting` — and leave the others alone.
-/

import RtmpTranscoder.EpollLoop
import RtmpTranscoder.Sockets

set_option relaxedAutoImplicit false
set_option autoImplicit false

open Actions (Action Fault all andThen nothing)
open Machine (Moment Run)

/-- Who has a socket: the server, as `listen_socket_`; what a new one goes through, from the answer of
`socket` or `accept` on; a publisher, known by its address; and a client. -/
inductive Holder where
  | listener
  | temporary
  | result
  | clientSocket
  | parameter
  | publisher (pub : ℕ)
  | client (id : ℕ)
  deriving DecidableEq, Repr

/-- The sockets, the event loop, and what the callback of a registration keeps. -/
structure Host where
  sockets : Sockets Holder
  loop : EpollLoop
  captured : ℕ → Option Holder

/-- What can be seen: descriptors that are opened and closed, and callbacks that are invoked with an
event; the event is that of the registration `reported`, and the callback that of `invoked`. -/
inductive HostEvent where
  | descriptor (e : DescriptorEvent)
  | invoked (fd : ℤ) (reported invoked : ℕ)

/-- What comes with a connection that `accept` answers with: its descriptor, whether it can be made
non-blocking, at which address its publisher is created, and why `epoll_ctl` refuses it. -/
structure Accepted where
  fd : ℤ
  nonblocking : Bool
  pub : ℕ
  refused : Option String

/-- What is done with a client: it is created; it connects, with the answers to `socket`, `fcntl`,
`connect` and `epoll_ctl`; it waits for other events; it cleans up; it is destroyed; and its members are
destroyed without a clean-up, by the destructor of another one whose memory it has been given. -/
inductive ClientDeed where
  | create (id : ℕ)
  | connect (id : ℕ) (fd : ℤ) (nonblocking connected : Bool) (refused : Option String)
  | modify (id : ℕ) (events : UInt32) (refused : Option String)
  | cleanup (id : ℕ) (refused : Option String)
  | destroy (id : ℕ) (refused : Option String)
  | discard (id : ℕ)

/-- What the calls of `Server::start` answer: whether the options can be set, whether the address can be
bound and listened at, and why `epoll_ctl` refuses it. -/
structure StartAnswers where
  reuseaddr : Bool
  nonblocking : Bool
  bound : Bool
  listening : Bool
  refused : Option String

/-- An event that is reported for the registration `number`, and what comes of it: the connections that
there are if it is one of the listening socket; what is done with clients; and whether a publisher
is removed. -/
structure Ready where
  fd : ℤ
  number : ℕ
  events : UInt32
  accepted : List Accepted
  deeds : List ClientDeed
  ends : Bool
  refused : Option String

namespace Host

/-- At the beginning there are no sockets. -/
def new : Host := ⟨Sockets.none, EpollLoop.new, fun _ => none⟩

/-- What the kernel forgets: the registrations of descriptors that are closed. -/
def closings (events : List DescriptorEvent) : List LoopCall :=
  events.filterMap fun
    | .opened _ => none
    | .closed fd => some (.close fd)

/-- An operation on sockets. -/
def socket (op : SocketOp Holder) : Action Host HostEvent := fun h =>
  match Sockets.perform op h.sockets with
  | .error f => .error f
  | .ok (sockets, out) =>
      .ok ({ h with sockets := sockets, loop := h.loop.perform (closings out) }, out.map .descriptor)

/-- A call on the loop with the descriptor of a socket, which may be −1. -/
def withFd (k : Holder) (f : Host → ℤ → Host) : Action Host HostEvent := fun h =>
  match h.sockets.objects k with
  | none => .error .dangling
  | some s => .ok (f h s.fd, [])

/-- A descriptor is added to the loop, with a callback of `k`.  There is no registration of −1. -/
def adding (k : Holder) (events : UInt32) (refused : Option String) (h : Host) (fd : ℤ) : Host :=
  if fd < 0 then h
  else { h with
    loop := h.loop.call (.add fd events refused)
    captured := Function.update h.captured h.loop.epoll.next (some k) }

/-- Another call on the loop. -/
def calling (c : ℤ → LoopCall) (h : Host) (fd : ℤ) : Host := { h with loop := h.loop.call (c fd) }

/-- `loop_.add(socket.fd(), events, callback)`. -/
def add (k : Holder) (events : UInt32) (refused : Option String) : Action Host HostEvent :=
  withFd k (adding k events refused)

/-- `loop_.modify(socket.fd(), events)`. -/
def modify (k : Holder) (events : UInt32) (refused : Option String) : Action Host HostEvent :=
  withFd k (calling fun fd => .modify fd events refused)

/-- `loop_.remove(socket.fd())`. -/
def remove (k : Holder) (refused : Option String) : Action Host HostEvent :=
  withFd k (calling fun fd => .remove fd refused)

/-- `socket_ = Socket(socket(AF_INET, SOCK_STREAM, 0))`. -/
def assignNew (k : Holder) (fd : ℤ) : Action Host HostEvent :=
  all [socket (.adopt .temporary fd), socket (.moveAssign k .temporary), socket (.destroy .temporary)]

/-! ### The server -/

/-- `EPOLLIN`, and `EPOLLOUT | EPOLLIN`. -/
def epollIn : UInt32 := 0x001

def epollInOut : UInt32 := 0x005

/-- `Server::Server`. -/
def createServer (fd : ℤ) : Action Host HostEvent :=
  andThen (socket (.create .listener)) (assignNew .listener fd)

/-- `Server::start`. -/
def start (a : StartAnswers) : Action Host HostEvent :=
  if a.reuseaddr && a.nonblocking && a.bound && a.listening then add .listener epollIn a.refused
  else nothing

/-- `RelayManager::start_server`. -/
def startServer (fd : ℤ) (a : StartAnswers) : Action Host HostEvent :=
  andThen (createServer fd) (start a)

/-- `RelayManager::handle_new_publisher`. -/
def handleNewPublisher (a : Accepted) : Action Host HostEvent :=
  all [socket (.create (.publisher a.pub)), socket (.moveAssign (.publisher a.pub) .parameter),
    add (.publisher a.pub) epollIn a.refused]

/-- What `Server::handle_accept` does with a connection. -/
def acceptOne (a : Accepted) : Action Host HostEvent :=
  all [socket (.adopt .result a.fd), socket (.moveConstruct .clientSocket .result),
    if a.nonblocking then
      all [socket (.moveConstruct .parameter .clientSocket), handleNewPublisher a,
        socket (.destroy .parameter)]
    else nothing,
    socket (.destroy .clientSocket), socket (.destroy .result)]

/-- `Server::handle_accept`: connections are taken until `accept` answers with an error. -/
def handleAccept : List Accepted → Action Host HostEvent
  | [] => nothing
  | a :: accepted => if a.fd = -1 then nothing else andThen (acceptOne a) (handleAccept accepted)

/-- `RelayManager::remove_publisher`. -/
def removePublisher (pub : ℕ) (refused : Option String) : Action Host HostEvent := fun h =>
  match h.sockets.objects (.publisher pub) with
  | none => .ok (h, [])
  | some _ => andThen (remove (.publisher pub) refused) (socket (.destroy (.publisher pub))) h

/-! ### Clients -/

/-- `Client::cleanup`, as far as the descriptor is concerned. -/
def cleanup (id : ℕ) (refused : Option String) : Action Host HostEvent := fun h =>
  match h.sockets.objects (.client id) with
  | none => .error .undefined
  | some s =>
      if 0 ≤ s.fd then andThen (remove (.client id) refused) (socket (.close (.client id))) h
      else .ok (h, [])

/-- `Client::connect`, as far as the descriptor is concerned. -/
def connect (id : ℕ) (fd : ℤ) (nonblocking connected : Bool) (refused : Option String) :
    Action Host HostEvent := fun h =>
  match h.sockets.objects (.client id) with
  | none => .error .undefined
  | some _ =>
      andThen (assignNew (.client id) fd)
        (if nonblocking && connected then add (.client id) epollInOut refused else nothing) h

/-- `loop_.modify` in the other functions of a client. -/
def setEvents (id : ℕ) (events : UInt32) (refused : Option String) : Action Host HostEvent := fun h =>
  match h.sockets.objects (.client id) with
  | none => .error .undefined
  | some _ => modify (.client id) events refused h

/-- `Client::~Client`. -/
def destroyClient (id : ℕ) (refused : Option String) : Action Host HostEvent :=
  andThen (cleanup id refused) (socket (.destroy (.client id)))

/-- What is left of `Client::~Client` behind the clean-up. -/
def discardClient (id : ℕ) : Action Host HostEvent := fun h =>
  match h.sockets.objects (.client id) with
  | none => .error .undefined
  | some _ => socket (.destroy (.client id)) h

/-- What is done with a client.  It is left open who does it. -/
def deed : ClientDeed → Action Host HostEvent
  | .create id => socket (.create (.client id))
  | .connect id fd nonblocking connected refused => connect id fd nonblocking connected refused
  | .modify id events refused => setEvents id events refused
  | .cleanup id refused => cleanup id refused
  | .destroy id refused => destroyClient id refused
  | .discard id => discardClient id

/-! ### The program -/

/-- The callback of a registration is invoked.  That of a publisher uses the publisher. -/
def invoke (n : ℕ) (t : Ready) : Action Host HostEvent := fun h =>
  match h.captured n with
  | some .listener => handleAccept t.accepted h
  | some (.publisher pub) =>
      match h.sockets.objects (.publisher pub) with
      | none => .error .dangling
      | some _ =>
          andThen (all (t.deeds.map deed)) (if t.ends then removePublisher pub t.refused else nothing) h
  | _ => all (t.deeds.map deed) h

/-- The turn of an event in `EpollLoop::run_once`. -/
def turn (t : Ready) : Action Host HostEvent := fun h =>
  match h.loop.callbacks t.fd with
  | none => .ok (h, [])
  | some n => andThen (fun h => .ok (h, [.invoked t.fd t.number n])) (invoke n t) h

/-- The events of a batch, in turn. -/
def dispatch (batch : List Ready) : Action Host HostEvent := all (batch.map turn)

/-- What the program is asked. -/
inductive Input where
  | deeds (deeds : List ClientDeed)
  | batch (batch : List Ready)

/-- What `epoll_wait` may answer. -/
def MayReport (h : Host) (batch : List Ready) : Prop :=
  h.loop.epoll.MayAnswer (.ready (batch.map fun t => ⟨t.fd, t.number, t.events, []⟩))

/-- The program as a machine: something is done with clients, or a batch of events is handled. -/
inductive Step : Machine.Step Host Input HostEvent
  | deeds {h h' : Host} {deeds : List ClientDeed} {out : List HostEvent}
      (hdone : all (deeds.map deed) h = .ok (h', out)) : Step h (.deeds deeds) out h'
  | batch {h h' : Host} {batch : List Ready} {out : List HostEvent} (hmay : h.MayReport batch)
      (hdone : dispatch batch h = .ok (h', out)) : Step h (.batch batch) out h'

end Host

/-! ### What a call on the loop changes -/

def LoopCall.fd : LoopCall → ℤ
  | .add fd _ _ => fd
  | .modify fd _ _ => fd
  | .remove fd _ => fd
  | .close fd => fd

/-- A call that adds nothing. -/
def LoopCall.Adds : LoopCall → Prop
  | .add _ _ _ => True
  | _ => False

namespace EpollLoop

variable {s : EpollLoop} {c : LoopCall} {fd : ℤ}

theorem call_other (h : fd ≠ c.fd) :
    (s.call c).callbacks fd = s.callbacks fd ∧
      (s.call c).epoll.registered fd = s.epoll.registered fd := by
  cases c with
  | add fd' events refused =>
      change fd ≠ fd' at h
      rw [call, add]
      cases hctl : s.epoll.ctl (.add events) fd' refused with
      | error text => exact ⟨rfl, rfl⟩
      | ok k =>
          obtain ⟨_, -, -, rfl⟩ | ⟨_, _, hop, -⟩ | ⟨hop, -⟩ := Epoll.ctl_ok hctl
          · exact ⟨Function.update_of_ne h .., Function.update_of_ne h ..⟩
          · cases hop
          · cases hop
  | modify fd' events refused =>
      change fd ≠ fd' at h
      rw [call, modify]
      cases hctl : s.epoll.ctl (.mod events) fd' refused with
      | error text => exact ⟨rfl, rfl⟩
      | ok k =>
          obtain ⟨_, hop, -⟩ | ⟨_, _, -, -, rfl⟩ | ⟨hop, -⟩ := Epoll.ctl_ok hctl
          · cases hop
          · exact ⟨rfl, Function.update_of_ne h ..⟩
          · cases hop
  | remove fd' refused =>
      change fd ≠ fd' at h
      rw [call, remove]
      cases hctl : s.epoll.ctl .del fd' refused with
      | error text => exact ⟨rfl, rfl⟩
      | ok k =>
          obtain ⟨_, hop, -⟩ | ⟨_, _, hop, -⟩ | ⟨-, rfl⟩ := Epoll.ctl_ok hctl
          · cases hop
          · cases hop
          · exact ⟨Function.update_of_ne h .., Function.update_of_ne h ..⟩
  | close fd' => exact ⟨rfl, Function.update_of_ne h ..⟩

/-- A call that adds nothing leaves callbacks and registrations, or takes them away. -/
theorem call_fewer (h : ¬ c.Adds) :
    (∀ n, (s.call c).callbacks fd = some n → s.callbacks fd = some n) ∧
      ∀ r, (s.call c).epoll.registered fd = some r →
        ∃ r', s.epoll.registered fd = some r' ∧ r'.number = r.number := by
  by_cases hfd : fd = c.fd
  · cases c with
    | add fd' events refused => exact absurd trivial h
    | modify fd' events refused =>
        obtain rfl : fd = fd' := hfd
        rw [call, modify]
        cases hctl : s.epoll.ctl (.mod events) fd refused with
        | error text => exact ⟨fun n hn => hn, fun r hr => ⟨r, hr, rfl⟩⟩
        | ok k =>
            obtain ⟨_, hop, -⟩ | ⟨_, r', -, hr', rfl⟩ | ⟨hop, -⟩ := Epoll.ctl_ok hctl
            · cases hop
            · refine ⟨fun n hn => hn, fun r hr => ⟨r', hr', ?_⟩⟩
              simp only [Function.update_self, Option.some.injEq] at hr
              rw [← hr]
            · cases hop
    | remove fd' refused =>
        obtain rfl : fd = fd' := hfd
        rw [call, remove]
        cases hctl : s.epoll.ctl .del fd refused with
        | error text => exact ⟨fun n hn => hn, fun r hr => ⟨r, hr, rfl⟩⟩
        | ok k =>
            obtain ⟨_, hop, -⟩ | ⟨_, _, hop, -⟩ | ⟨-, rfl⟩ := Epoll.ctl_ok hctl
            · cases hop
            · cases hop
            · refine ⟨fun n hn => ?_, fun r hr => ?_⟩
              · simp at hn
              · simp [Epoll.close] at hr
    | close fd' =>
        obtain rfl : fd = fd' := hfd
        refine ⟨fun n hn => hn, fun r hr => ?_⟩
        simp [call, Epoll.close] at hr
  · obtain ⟨hcallbacks, hregistered⟩ := @call_other s c fd hfd
    exact ⟨fun n hn => hcallbacks ▸ hn, fun r hr => ⟨r, hregistered ▸ hr, rfl⟩⟩

/-- What is added is a new registration with a new callback, if it is not refused. -/
theorem call_add (events : UInt32) (refused : Option String) :
    s.call (.add fd events refused) = s ∨
      s.call (.add fd events refused) =
        ⟨⟨Function.update s.epoll.registered fd (some ⟨s.epoll.next, events⟩), s.epoll.next + 1⟩,
          Function.update s.callbacks fd (some s.epoll.next)⟩ := by
  rw [call, add]
  cases hctl : s.epoll.ctl (.add events) fd refused with
  | error text => exact .inl rfl
  | ok k =>
      obtain ⟨_, hop, -, rfl⟩ | ⟨_, _, hop, -⟩ | ⟨hop, -⟩ := Epoll.ctl_ok hctl
      · obtain rfl := EpollOp.add.inj hop
        exact .inr rfl
      · cases hop
      · cases hop

theorem next_le_call (c : LoopCall) : s.epoll.next ≤ (s.call c).epoll.next := by
  rw [call_epoll]
  exact s.epoll.next_le_after c

end EpollLoop

/-! ### What holds at any time -/

/-- The listening socket, or a publisher. -/
def Holder.Standing (k : Holder) : Prop := k = .listener ∨ ∃ pub, k = .publisher pub

/-- What a new socket goes through. -/
def Holder.Passing (k : Holder) : Prop :=
  k = .temporary ∨ k = .result ∨ k = .clientSocket ∨ k = .parameter

namespace Host

/-- What holds between two steps, and between two things that are done in a step: the descriptors are
owned; nothing is left on the way; publishers have descriptors; the callback of a descriptor that is
registered is one of who holds the descriptor; and every callback keeps something. -/
structure Tidy (h : Host) : Prop where
  owned : h.sockets.Owned
  sound : h.loop.Sound
  arrived : ∀ k, k.Passing → h.sockets.objects k = none
  valid : ∀ pub s, h.sockets.objects (.publisher pub) = some s → 0 ≤ s.fd
  registered : ∀ fd r, h.loop.epoll.registered fd = some r →
    ∃ k, h.captured r.number = some k ∧ h.sockets.Holds k fd
  known : ∀ fd n, h.loop.callbacks fd = some n → ∃ k, h.captured n = some k

/-- What is done leaves the listening socket and the publishers alone, as far as the descriptors with `P`
are concerned, and the callbacks that there have been; and a callback that there is now for such a
descriptor and keeps a publisher has been there, or is the callback of who holds the descriptor. -/
structure Frame (P : ℤ → Prop) (h : Host) (out : List HostEvent) (h' : Host) : Prop where
  steady : ∀ k fd, k.Standing → P fd → h.sockets.Holds k fd → h'.sockets.Holds k fd ∧
    h'.loop.callbacks fd = h.loop.callbacks fd
  next : h.loop.epoll.next ≤ h'.loop.epoll.next
  captured : ∀ n < h.loop.epoll.next, h'.captured n = h.captured n
  renewed : ∀ fd n pub, P fd → h'.loop.callbacks fd = some n →
    h'.captured n = some (.publisher pub) →
      (h.loop.callbacks fd = some n ∧ h.captured n = some (.publisher pub)) ∨
        h'.sockets.Holds (.publisher pub) fd

theorem Frame.composes (P : ℤ → Prop) : Actions.Composes (Frame P) where
  refl h := ⟨fun _ _ _ _ hheld => ⟨hheld, rfl⟩, le_rfl, fun _ _ => rfl,
    fun _ _ _ _ hn hcaptured => .inl ⟨hn, hcaptured⟩⟩
  trans {h h₁ h₂ out₁ out₂} hfirst hsecond := by
    constructor
    · intro k fd hk hP hheld
      obtain ⟨hheld₁, hcallbacks₁⟩ := hfirst.steady k fd hk hP hheld
      obtain ⟨hheld₂, hcallbacks₂⟩ := hsecond.steady k fd hk hP hheld₁
      exact ⟨hheld₂, hcallbacks₂.trans hcallbacks₁⟩
    · exact hfirst.next.trans hsecond.next
    · intro n hn
      rw [hsecond.captured n (hn.trans_le hfirst.next), hfirst.captured n hn]
    · intro fd n pub hP hn hcaptured
      rcases hsecond.renewed fd n pub hP hn hcaptured with ⟨hn₁, hcaptured₁⟩ | hheld
      · rcases hfirst.renewed fd n pub hP hn₁ hcaptured₁ with hold | hheld₁
        · exact .inl hold
        · exact .inr (hsecond.steady _ fd (.inr ⟨pub, rfl⟩) hP hheld₁).1
      · exact .inr hheld

theorem Frame.mono {P Q : ℤ → Prop} {h h' : Host} {out : List HostEvent} (hframe : Frame P h out h')
    (hPQ : ∀ fd, Q fd → P fd) : Frame Q h out h' where
  steady k fd hk hQ hheld := hframe.steady k fd hk (hPQ fd hQ) hheld
  next := hframe.next
  captured := hframe.captured
  renewed fd n pub hQ hn hcaptured := hframe.renewed fd n pub (hPQ fd hQ) hn hcaptured

/-! ### What is done with one descriptor -/

/-- A new descriptor is held. -/
def holding (k : Holder) (h : Host) (fd : ℤ) : Host :=
  { h with sockets :=
    { h.sockets.put k (some ⟨fd⟩) with descriptors := insert fd h.sockets.descriptors } }

/-- A socket is closed, and another one put in its place. -/
def shutting (k : Holder) (after : Option Socket) (h : Host) (s : Socket) : Host :=
  { h with
    sockets := (h.sockets.shut s).put k after
    loop := h.loop.perform (closings s.close.2) }

section Effects

variable {h : Host} {k : Holder} {fd : ℤ} {P : ℤ → Prop} {out : List HostEvent} {events : UInt32}
  {refused : Option String}

/-- Who holds a descriptor is not one through which sockets only pass. -/
theorem Tidy.not_passing (ht : h.Tidy) (hheld : h.sockets.Holds k fd) : ¬ k.Passing := by
  intro hpassing
  rw [Sockets.Holds, ht.arrived k hpassing] at hheld
  cases hheld.1

theorem arrived_put {sockets : Sockets Holder} {socket : Option Socket}
    (harrived : ∀ k, k.Passing → sockets.objects k = none) (hk : ¬ k.Passing) :
    ∀ k', k'.Passing → (sockets.put k socket).objects k' = none := by
  intro k' hpassing
  have hne : k' ≠ k := by
    rintro rfl
    exact hk hpassing
  rw [Sockets.objects_put_of_ne hne, harrived k' hpassing]

theorem Tidy.mem (ht : h.Tidy) (hheld : h.sockets.Holds k fd) : fd ∈ h.sockets.descriptors :=
  (ht.owned.held fd).2 ⟨k, hheld⟩

theorem objects_holding : (Host.holding k h fd).sockets.objects k = some ⟨fd⟩ := Sockets.objects_put_self

theorem holds_holding (hvacant : Sockets.Vacant (h.sockets.objects k)) {k' : Holder} {fd' : ℤ}
    (hheld : h.sockets.Holds k' fd') : (Host.holding k h fd).sockets.Holds k' fd' := by
  have hne : k' ≠ k := by
    rintro rfl
    exact hvacant.not_holds hheld
  exact ⟨(Sockets.objects_put_of_ne hne).trans hheld.1, hheld.2⟩

theorem Tidy.holding (ht : h.Tidy) (hk : ¬ k.Passing) (hvacant : Sockets.Vacant (h.sockets.objects k))
    (hvalid : 0 ≤ fd) (hfresh : fd ∉ h.sockets.descriptors) : (holding k h fd).Tidy where
  owned := ht.owned.adopt hvacant hvalid hfresh
  sound := ht.sound
  arrived := arrived_put ht.arrived hk
  valid pub s hs := by
    by_cases hpub : Holder.publisher pub = k
    · subst hpub
      obtain rfl := Option.some.inj (Sockets.objects_put_self.symm.trans hs)
      exact hvalid
    · exact ht.valid pub s ((Sockets.objects_put_of_ne hpub).symm.trans hs)
  registered fd' r hr := by
    obtain ⟨k', hcaptured, hheld⟩ := ht.registered fd' r hr
    exact ⟨k', hcaptured, holds_holding hvacant hheld⟩
  known := ht.known

theorem Tidy.placing (ht : h.Tidy) (hk : ¬ k.Passing) (hnone : h.sockets.objects k = none)
    (hpub : ∀ pub, k ≠ .publisher pub) :
    Tidy { h with sockets := h.sockets.put k (some Socket.new) } where
  owned := ht.owned.put (hnone ▸ Sockets.vacant_none) Sockets.vacant_minus_one
  sound := ht.sound
  arrived := arrived_put ht.arrived hk
  valid pub s hs := ht.valid pub s ((Sockets.objects_put_of_ne (hpub pub).symm).symm.trans hs)
  registered fd r hr := by
    obtain ⟨k', hcaptured, hheld⟩ := ht.registered fd r hr
    have hne : k' ≠ k := by
      rintro rfl
      rw [Sockets.Holds, hnone] at hheld
      cases hheld.1
    exact ⟨k', hcaptured, (Sockets.objects_put_of_ne hne).trans hheld.1, hheld.2⟩
  known := ht.known

theorem Tidy.adding (ht : h.Tidy) (hheld : 0 ≤ fd → h.sockets.Holds k fd) :
    (adding k events refused h fd).Tidy := by
  unfold Host.adding
  split
  · exact ht
  · rename_i hvalid
    have hholds := hheld (not_lt.1 hvalid)
    -- the number of a new registration has not been used
    have hold (fd' : ℤ) (r : Registration) (hr : h.loop.epoll.registered fd' = some r) :
        ∃ k', Function.update h.captured h.loop.epoll.next (some k) r.number = some k' ∧
          h.sockets.Holds k' fd' := by
      obtain ⟨k', hcaptured, hholds'⟩ := ht.registered fd' r hr
      have hlt := ht.sound.counted fd' _ (ht.sound.synced fd' r hr)
      exact ⟨k', by rwa [Function.update_of_ne hlt.ne], hholds'⟩
    have hkept (fd' : ℤ) (n : ℕ) (hn : h.loop.callbacks fd' = some n) :
        ∃ k', Function.update h.captured h.loop.epoll.next (some k) n = some k' := by
      obtain ⟨k', hcaptured⟩ := ht.known fd' n hn
      exact ⟨k', by rwa [Function.update_of_ne (ht.sound.counted fd' n hn).ne]⟩
    refine ⟨ht.owned, ht.sound.call (.add fd events refused), ht.arrived, ht.valid, fun fd' r hr => ?_,
      fun fd' n hn => ?_⟩
    · rcases @EpollLoop.call_add h.loop fd events refused with hsame | hnew
      · simp only [hsame] at hr
        exact hold fd' r hr
      · simp only [hnew] at hr
        by_cases hfd : fd' = fd
        · subst hfd
          rw [Function.update_self] at hr
          obtain rfl := Option.some.inj hr
          exact ⟨k, Function.update_self .., hholds⟩
        · rw [Function.update_of_ne hfd] at hr
          exact hold fd' r hr
    · rcases @EpollLoop.call_add h.loop fd events refused with hsame | hnew
      · simp only [hsame] at hn
        exact hkept fd' n hn
      · simp only [hnew] at hn
        by_cases hfd : fd' = fd
        · subst hfd
          rw [Function.update_self] at hn
          obtain rfl := Option.some.inj hn
          exact ⟨k, Function.update_self ..⟩
        · rw [Function.update_of_ne hfd] at hn
          exact hkept fd' n hn

theorem Tidy.calling (ht : h.Tidy) (c : ℤ → LoopCall) (hc : ¬ (c fd).Adds) :
    (calling c h fd).Tidy where
  owned := ht.owned
  sound := ht.sound.call _
  arrived := ht.arrived
  valid := ht.valid
  registered fd' r hr := by
    obtain ⟨r', hr', hnumber⟩ := (@EpollLoop.call_fewer h.loop _ fd' hc).2 r hr
    obtain ⟨k, hcaptured, hheld⟩ := ht.registered fd' r' hr'
    exact ⟨k, hnumber ▸ hcaptured, hheld⟩
  known fd' n hn := ht.known fd' n ((@EpollLoop.call_fewer h.loop _ fd' hc).1 n hn)

theorem perform_closings (s : EpollLoop) {socket : Socket} (hvalid : 0 ≤ socket.fd) :
    s.perform (closings socket.close.2) = s.call (.close socket.fd) := by
  rw [Socket.close, if_pos hvalid]
  rfl

theorem perform_closings_invalid (s : EpollLoop) {socket : Socket} (hinvalid : ¬ 0 ≤ socket.fd) :
    s.perform (closings socket.close.2) = s := by
  rw [Socket.close, if_neg hinvalid]
  rfl

theorem callbacks_closings (s : EpollLoop) (socket : Socket) :
    (s.perform (closings socket.close.2)).callbacks = s.callbacks := by
  by_cases hvalid : 0 ≤ socket.fd
  · rw [perform_closings s hvalid]
    rfl
  · rw [perform_closings_invalid s hvalid]

theorem Tidy.shutting (ht : h.Tidy) {s : Socket} {after : Option Socket} (hk : ¬ k.Passing)
    (hs : h.sockets.objects k = some s) (hafter : Sockets.Vacant after)
    (hpub : ∀ pub, k = .publisher pub → after = none) : (shutting k after h s).Tidy where
  owned := ht.owned.shut hs hafter
  sound := ht.sound.perform _
  arrived := by
    refine arrived_put (fun k' hpassing => ?_) hk
    rw [Sockets.objects_shut, ht.arrived k' hpassing]
  valid pub s' hs' := by
    by_cases hsame : Holder.publisher pub = k
    · subst hsame
      rw [hpub pub rfl] at hs'
      cases Sockets.objects_put_self.symm.trans hs'
    · have hold := (Sockets.objects_put_of_ne hsame).symm.trans hs'
      rw [Sockets.objects_shut] at hold
      exact ht.valid pub s' hold
  registered fd r hr := by
    have hkept (hne : fd ≠ s.fd ∨ s.fd < 0) (hr' : ∃ r', h.loop.epoll.registered fd = some r' ∧
        r'.number = r.number) :
        ∃ k', h.captured r.number = some k' ∧ ((h.sockets.shut s).put k after).Holds k' fd := by
      obtain ⟨r', hr', hnumber⟩ := hr'
      obtain ⟨k', hcaptured, hheld⟩ := ht.registered fd r' hr'
      have hother : k' ≠ k := by
        rintro rfl
        obtain rfl := Option.some.inj (hs.symm.trans hheld.1)
        rcases hne with hne | hinvalid
        · exact hne rfl
        · exact absurd hheld.2 (not_le_of_gt hinvalid)
      refine ⟨k', hnumber ▸ hcaptured, (Sockets.objects_put_of_ne hother).trans ?_, hheld.2⟩
      rw [Sockets.objects_shut, hheld.1]
    by_cases hvalid : 0 ≤ s.fd
    · change (h.loop.perform (closings s.close.2)).epoll.registered fd = some r at hr
      rw [perform_closings h.loop hvalid] at hr
      refine hkept (.inl ?_) ((@EpollLoop.call_fewer h.loop (.close s.fd) fd fun h => h).2 r hr)
      rintro rfl
      simp [EpollLoop.call, Epoll.close] at hr
    · change (h.loop.perform (closings s.close.2)).epoll.registered fd = some r at hr
      rw [perform_closings_invalid h.loop hvalid] at hr
      exact hkept (.inr (not_le.1 hvalid)) ⟨r, hr, rfl⟩
  known fd n hn := ht.known fd n ((congrFun (callbacks_closings h.loop s) fd).symm.trans hn)

/-- A descriptor that is taken is one that nobody has held: the others keep their callbacks. -/
theorem Frame.taking (ht : h.Tidy) (hvacant : Sockets.Vacant (h.sockets.objects k)) (hvalid : 0 ≤ fd)
    (hfresh : fd ∉ h.sockets.descriptors) :
    Frame P h out (Host.adding k events refused (Host.holding k h fd) fd) := by
  unfold Host.adding
  rw [if_neg (not_lt.2 hvalid)]
  constructor
  · intro k' fd' hk' hP hheld
    refine ⟨holds_holding hvacant hheld, ?_⟩
    have hne : fd' ≠ fd := by
      rintro rfl
      exact hfresh (ht.mem hheld)
    exact (@EpollLoop.call_other h.loop (.add fd events refused) fd' hne).1
  · exact EpollLoop.next_le_call _
  · intro n hn
    exact Function.update_of_ne hn.ne ..
  · intro fd' n pub hP hn hcaptured
    -- a callback that there has been has a number that has been used
    have hold (hn : h.loop.callbacks fd' = some n) :
        h.loop.callbacks fd' = some n ∧ h.captured n = some (.publisher pub) := by
      refine ⟨hn, ?_⟩
      rw [← hcaptured]
      exact (Function.update_of_ne (ht.sound.counted fd' n hn).ne ..).symm
    rcases @EpollLoop.call_add h.loop fd events refused with hsame | hnew
    · refine .inl (hold ?_)
      rw [← hn]
      exact congrArg (fun l => l.callbacks fd') hsame.symm
    · have hcallback : Function.update h.loop.callbacks fd (some h.loop.epoll.next) fd' = some n := by
        rw [← hn]
        exact congrArg (fun l => l.callbacks fd') hnew.symm
      by_cases hfd : fd' = fd
      · subst hfd
        rw [Function.update_self] at hcallback
        obtain rfl := Option.some.inj hcallback
        change Function.update h.captured h.loop.epoll.next (some k) h.loop.epoll.next = _ at hcaptured
        rw [Function.update_self] at hcaptured
        obtain rfl := Option.some.inj hcaptured
        exact .inr ⟨Sockets.objects_put_self, hvalid⟩
      · rw [Function.update_of_ne hfd] at hcallback
        exact .inl (hold hcallback)

theorem Frame.holding (hvacant : Sockets.Vacant (h.sockets.objects k)) :
    Frame P h out (Host.holding k h fd) where
  steady _ _ _ _ hheld := ⟨holds_holding hvacant hheld, rfl⟩
  next := le_rfl
  captured _ _ := rfl
  renewed _ _ _ _ hn hcaptured := .inl ⟨hn, hcaptured⟩

theorem Frame.placing (hnone : h.sockets.objects k = none) :
    Frame P h out { h with sockets := h.sockets.put k (some Socket.new) } where
  steady k' fd _ _ hheld := by
    have hne : k' ≠ k := by
      rintro rfl
      rw [Sockets.Holds, hnone] at hheld
      cases hheld.1
    exact ⟨⟨(Sockets.objects_put_of_ne hne).trans hheld.1, hheld.2⟩, rfl⟩
  next := le_rfl
  captured _ _ := rfl
  renewed _ _ _ _ hn hcaptured := .inl ⟨hn, hcaptured⟩

/-- A descriptor is none of the listening socket or a publisher, unless nothing is said about it. -/
def Apart (P : ℤ → Prop) (h : Host) (fd : ℤ) : Prop :=
  ∀ k, k.Standing → h.sockets.Holds k fd → ¬ P fd

theorem Tidy.apart_client (ht : h.Tidy) {id : ℕ} {s : Socket}
    (hs : h.sockets.objects (.client id) = some s) : Apart P h s.fd := by
  intro k hk hheld
  have heq := ht.owned.one hheld ⟨hs, hheld.2⟩
  subst heq
  rcases hk with hk | ⟨pub, hk⟩
  · cases hk
  · cases hk

theorem Frame.calling {c : ℤ → LoopCall} (hc : ¬ (c fd).Adds) (hfd : (c fd).fd = fd)
    (hapart : Apart P h fd) : Frame P h out (Host.calling c h fd) where
  steady k fd' hk hP hheld := by
    refine ⟨hheld, ?_⟩
    have hne : fd' ≠ (c fd).fd := by
      rw [hfd]
      rintro rfl
      exact hapart k hk hheld hP
    exact (EpollLoop.call_other hne).1
  next := EpollLoop.next_le_call _
  captured _ _ := rfl
  renewed fd' n pub hP hn hcaptured := .inl ⟨(EpollLoop.call_fewer hc).1 n hn, hcaptured⟩

theorem Frame.shutting {s : Socket} {after : Option Socket} (hs : h.sockets.objects k = some s)
    (hapart : Apart P h s.fd) : Frame P h out (Host.shutting k after h s) := by
  have hcallbacks (fd : ℤ) : (h.loop.perform (closings s.close.2)).callbacks fd = h.loop.callbacks fd :=
    congrFun (callbacks_closings h.loop s) fd
  constructor
  · intro k' fd hk' hP hheld
    refine ⟨⟨?_, hheld.2⟩, hcallbacks fd⟩
    have hne : k' ≠ k := by
      rintro rfl
      obtain rfl := Option.some.inj (hs.symm.trans hheld.1)
      exact hapart k' hk' hheld hP
    refine (Sockets.objects_put_of_ne hne).trans ?_
    rw [Sockets.objects_shut, hheld.1]
  · by_cases hvalid : 0 ≤ s.fd
    · change h.loop.epoll.next ≤ (h.loop.perform (closings s.close.2)).epoll.next
      rw [perform_closings h.loop hvalid]
      exact EpollLoop.next_le_call _
    · change h.loop.epoll.next ≤ (h.loop.perform (closings s.close.2)).epoll.next
      rw [perform_closings_invalid h.loop hvalid]
  · exact fun _ _ => rfl
  · intro fd n pub hP hn hcaptured
    exact .inl ⟨(hcallbacks fd).symm.trans hn, hcaptured⟩

end Effects

end Host
