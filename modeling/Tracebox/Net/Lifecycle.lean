import Tracebox.Lib.Handles
import Tracebox.Lib.Machine

/-!
# The life of the server

`Server::start` obtains three descriptors and starts a thread, the thread accepts clients and drops
them, `Server::stop` ends the thread and closes what is left.  Each call to the system may fail, and
descriptors are closed in four places by two threads.

The model takes one step for each call of the owner, with `stop` cut in two at the place where it
waits for the thread, and one step for each round of the event loop, cut once more between `accept`
and what is done with the client, where the owner may stop the server.  What the system answers is a
parameter.

* `Owns` — **the server owns its descriptors**: the open ones are those its members name, and the
  client the event loop has in its hands.
* `step_lifecycle` — every step of either thread keeps it.
* `descriptors_in_turn` — in every run each descriptor is closed once, `stop` and a failing
  `start` leave none open, and the members name exactly the clients that are accepted and open.
-/

namespace Tracebox

/-- The calls that fail or succeed and leave no descriptor behind. -/
inductive SystemCall where
  | fcntl (fd : ℤ)
  | setsockopt (fd : ℤ)
  | bind (fd : ℤ)
  | listen (fd : ℤ)
  | getsockname (fd : ℤ)
  | epoll_ctl (fd : ℤ)
  | thread

/-- An event of `epoll_wait`. -/
structure EpollEvent where
  fd : ℤ
  events : UInt32
  deriving DecidableEq, Repr

/-- The event that a descriptor is readable. -/
def EPOLLIN : UInt32 := 1

/-- How `epoll_wait` returns. -/
inductive EpollWait where
  | interrupted
  | failed
  | events (batch : List EpollEvent)

/-- How `handleLogRequest` returns. -/
inductive Handled where
  | kept
  | refused
  | threw

/-- The system around the server.  An answer may depend on the number of the call.  A descriptor is
never one that is open, and a batch of events holds each registered descriptor at most once. -/
structure Surroundings where
  /-- `epoll_create1`, `eventfd`, `socket` and `accept` -/
  descriptor : List ℤ → ℕ → ℤ
  fresh : ∀ opened n, 0 ≤ descriptor opened n → descriptor opened n ∉ opened
  succeeds : SystemCall → ℕ → Bool
  port : ℕ → ℕ
  epoll_wait : List ℤ → ℕ → EpollWait
  reported : ∀ interest n batch, epoll_wait interest n = .events batch →
    (batch.map EpollEvent.fd).Nodup ∧ ∀ e ∈ batch, e.fd ∈ interest
  /-- reading a request and the callback, which neither open nor close a descriptor -/
  handleLogRequest : ℤ → ℕ → Handled

/-! ## Descriptors -/

/-- The descriptors of the server, as the system sees them. -/
structure Descriptors where
  /-- what was obtained and closed so far -/
  log : List (Use ℤ) := []
  /-- the open descriptors -/
  opened : List ℤ := []
  /-- the open descriptors that `accept` returned -/
  accepted : List ℤ := []
  /-- what the epoll instance watches -/
  interest : List ℤ := []
  /-- the number of calls so far -/
  calls : ℕ := 0
  deriving DecidableEq, Repr

namespace Descriptors

variable (k : Surroundings)

/-- `epoll_create1`, `eventfd` and `socket`. -/
def obtain_ (w : Descriptors) : ℤ × Descriptors :=
  let fd := k.descriptor w.opened w.calls
  if fd < 0 then (fd, { w with calls := w.calls + 1 })
  else (fd, { w with
    log := w.log ++ [.taken fd]
    opened := w.opened ++ [fd]
    calls := w.calls + 1 })

/-- `accept`. -/
def accept (w : Descriptors) : ℤ × Descriptors :=
  let (fd, w) := w.obtain_ k
  if fd < 0 then (fd, w) else (fd, { w with accepted := w.accepted ++ [fd] })

/-- `close`.  The epoll instance forgets the descriptor. -/
def close (fd : ℤ) (w : Descriptors) : Descriptors where
  log := w.log ++ [.released fd]
  opened := w.opened.erase fd
  accepted := w.accepted.erase fd
  interest := w.interest.filter (· ≠ fd)
  calls := w.calls + 1

/-- A call that leaves no descriptor behind. -/
def call (c : SystemCall) (w : Descriptors) : Bool × Descriptors :=
  (k.succeeds c w.calls, { w with calls := w.calls + 1 })

/-- `epoll_ctl` with `EPOLL_CTL_ADD`. -/
def watch (fd : ℤ) (w : Descriptors) : Bool × Descriptors :=
  let (ok, w) := w.call k (.epoll_ctl fd)
  if ok then (true, { w with interest := w.interest ++ [fd] }) else (false, w)

/-- `epoll_ctl` with `EPOLL_CTL_DEL`. -/
def unwatch (fd : ℤ) (w : Descriptors) : Descriptors :=
  let (ok, w) := w.call k (.epoll_ctl fd)
  if ok then { w with interest := w.interest.filter (· ≠ fd) } else w

end Descriptors

/-! ## The server -/

/-- `Server::State`. -/
inductive ServerState where
  | kStopped
  | kStarting
  | kRunning
  | kStopping
  deriving DecidableEq, Repr

/-- Where `Server::run` is. -/
inductive RunPoint where
  /-- before `epoll_wait` -/
  | waiting
  /-- in the batch, with the events still to come -/
  | handling (rest : List EpollEvent)
  /-- `accept` has returned a client -/
  | accepting (client : ℤ) (rest : List EpollEvent)
  /-- behind the loop -/
  | leaving
  | returned
  deriving DecidableEq, Repr

/-- The server; `thread_` is `none` when it is not joinable. -/
structure Server where
  epoll_fd_ : ℤ := -1
  wakeup_fd_ : ℤ := -1
  listening_fd_ : ℤ := -1
  bound_port_ : ℕ := 0
  client_fd_ : List ℤ := []
  state_ : ServerState := .kStopped
  thread_ : Option RunPoint := none
  /-- the owner waits in `stop` for the thread -/
  joining : Bool := false
  world : Descriptors := {}
  deriving DecidableEq, Repr

namespace Server

variable (k : Surroundings)

/-- A call that leaves no descriptor behind. -/
def call (c : SystemCall) (s : Server) : Bool × Server :=
  let (ok, w) := s.world.call k c
  (ok, { s with world := w })

/-- Two calls, the second one only when the first one succeeds. -/
def both (f g : Server → Bool × Server) (s : Server) : Bool × Server :=
  if (f s).1 then g (f s).2 else (false, (f s).2)

/-- `close(fd)`. -/
def close (fd : ℤ) (s : Server) : Server := { s with world := s.world.close fd }

/-- A call whose answer does not matter, or has been looked at. -/
def tick (s : Server) : Server := { s with world := { s.world with calls := s.world.calls + 1 } }

/-- `setNonBlocking`: the flags are read and written back. -/
def setNonBlocking (fd : ℤ) : Server → Bool × Server :=
  both (call k (.fcntl fd)) (call k (.fcntl fd))

/-- `setSocketTimeouts`: one option for each direction. -/
def setSocketTimeouts (fd : ℤ) : Server → Bool × Server :=
  both (call k (.setsockopt fd)) (call k (.setsockopt fd))

/-- `epoll_ctl` with `EPOLL_CTL_ADD`. -/
def watch (fd : ℤ) (s : Server) : Bool × Server :=
  let (ok, w) := s.world.watch k fd
  (ok, { s with world := w })

/-- The part of `registerFd` for clients. -/
def keepClient (fd : ℤ) (s : Server) : Bool × Server :=
  let (ok, s) := s.setSocketTimeouts k fd
  if ok then (true, { s with client_fd_ := s.client_fd_ ++ [fd] })
  else (false, { s with world := s.world.unwatch k fd })

/-- `registerFd`: the descriptor is made non-blocking and watched, and one of a client is kept. -/
def registerFd (fd : ℤ) (client : Bool) : Server → Bool × Server :=
  both (setNonBlocking k fd) (both (watch k fd)
    (if client then keepClient k fd else fun s => (true, s)))

/-- `unregisterFd`: the descriptor is not watched any more, forgotten and closed. -/
def unregisterFd (fd : ℤ) (s : Server) : Server :=
  let s := if 0 ≤ s.epoll_fd_ then { s with world := s.world.unwatch k fd } else s
  ({ s with client_fd_ := s.client_fd_.erase fd }).close fd

/-- The loop of `closeClientFds`; each round takes one client off. -/
def closeClients : ℕ → Server → Server
  | 0, s => s
  | n + 1, s =>
      match s.client_fd_.getLast? with
      | none => s
      | some fd => closeClients n (s.unregisterFd k fd)

/-- `closeClientFds`: all clients that there are at the beginning. -/
def closeClientFds (s : Server) : Server := closeClients k s.client_fd_.length s

/-- Closes the listening socket if there is one. -/
def closeListening (s : Server) : Server :=
  if 0 ≤ s.listening_fd_ then { s.close s.listening_fd_ with listening_fd_ := -1 } else s

/-- The part of `closeStartupDescriptors` for the wakeup descriptor. -/
def closeWakeup (s : Server) : Server :=
  if 0 ≤ s.wakeup_fd_ then
    let s := if 0 ≤ s.epoll_fd_ then { s with world := s.world.unwatch k s.wakeup_fd_ } else s
    { s.close s.wakeup_fd_ with wakeup_fd_ := -1 }
  else s

/-- The part of `closeStartupDescriptors` for the epoll descriptor. -/
def closeEpoll (s : Server) : Server :=
  if 0 ≤ s.epoll_fd_ then { s.close s.epoll_fd_ with epoll_fd_ := -1 } else s

/-- `closeStartupDescriptors`: the clients first and the epoll descriptor last. -/
def closeStartupDescriptors (s : Server) : Server :=
  (((s.closeClientFds k).closeListening).closeWakeup k).closeEpoll

/-! ## `start` -/

/-- What `start` does when a call fails. -/
def giveUp (s : Server) : Bool × Server :=
  (false, { s.closeStartupDescriptors k with state_ := .kStopped })

/-- A part of `start` and the rest of it. -/
def attempt (f g : Server → Bool × Server) (s : Server) : Bool × Server :=
  if (f s).1 then g (f s).2 else (f s).2.giveUp k

/-- The part of `start` with `epoll_create1`. -/
def openEpoll (s : Server) : Bool × Server :=
  let (fd, w) := s.world.obtain_ k
  (decide (0 ≤ fd), { s with epoll_fd_ := fd, world := w })

/-- The part of `start` with `eventfd`. -/
def openWakeup (s : Server) : Bool × Server :=
  let (fd, w) := s.world.obtain_ k
  let s := { s with wakeup_fd_ := fd, world := w }
  if fd < 0 then (false, s) else s.setNonBlocking k s.wakeup_fd_

/-- The part of `start` with `socket`. -/
def openListening (s : Server) : Bool × Server :=
  let (fd, w) := s.world.obtain_ k
  let s := { s with listening_fd_ := fd, world := w }
  if fd < 0 then (false, s) else s.setNonBlocking k s.listening_fd_

/-- The part of `start` with the options of the listening socket. -/
def setOptions (s : Server) : Bool × Server :=
  both (call k (.setsockopt s.listening_fd_)) (setSocketTimeouts k s.listening_fd_) s

/-- The part of `start` with `bind` and `listen`. -/
def bindAndListen (s : Server) : Bool × Server :=
  both (call k (.bind s.listening_fd_)) (call k (.listen s.listening_fd_)) s

/-- The part of `start` with `getsockname`, which tells the port. -/
def readPort (s : Server) : Bool × Server :=
  let (ok, s') := s.call k (.getsockname s.listening_fd_)
  if ok then (true, { s' with bound_port_ := k.port s.world.calls }) else (false, s')

/-- The part of `start` that registers the wakeup and the listening descriptor. -/
def registerBoth (s : Server) : Bool × Server :=
  both (registerFd k s.wakeup_fd_ false) (registerFd k s.listening_fd_ false) s

/-- The end of `start`; a thread that cannot be created throws. -/
def launch (s : Server) : Bool × Server :=
  let (ok, s) := ({ s with state_ := .kRunning }).call k .thread
  if ok then (true, { s with thread_ := some .waiting }) else s.giveUp k

/-- `start`: whatever fails gives up what was opened so far. -/
def start (s : Server) : Bool × Server :=
  if s.state_ ≠ .kStopped then (false, s)
  else
    attempt k (openEpoll k) (attempt k (openWakeup k) (attempt k (openListening k)
      (attempt k (setOptions k) (attempt k (bindAndListen k) (attempt k (readPort k)
        (attempt k (registerBoth k) (launch k)))))))
      { s with state_ := .kStarting }

/-! ## `stop` -/

/-- `stop` up to the place where it waits for the thread.  What it writes to the eventfd shows in
the events that `epoll_wait` reports. -/
def stopBegin (s : Server) : Server :=
  if s.state_ = .kStarting then s
  else if s.state_ = .kRunning then { s with state_ := .kStopping, joining := true }
  else { s with joining := true }

/-- `stop` from there on. -/
def stopEnd (s : Server) : Server :=
  { ({ s with thread_ := none }).closeStartupDescriptors k with
    bound_port_ := 0
    state_ := .kStopped
    joining := false }

/-! ## `run` -/

/-- One event. -/
def handle (e : EpollEvent) (rest : List EpollEvent) (s : Server) : Server :=
  if e.fd = s.wakeup_fd_ then { s with thread_ := some .leaving }
  else if s.state_ ≠ .kRunning then { s with thread_ := some .leaving }
  else if e.fd = s.listening_fd_ then
    let (client, w) := s.world.accept k
    if client < 0 then { s with world := w, thread_ := some (.handling rest) }
    else { s with world := w, thread_ := some (.accepting client rest) }
  else if e.events &&& EPOLLIN ≠ 0 then
    match k.handleLogRequest e.fd s.world.calls with
    | .kept => { s.tick with thread_ := some (.handling rest) }
    | .refused => { s.tick.unregisterFd k e.fd with thread_ := some (.handling rest) }
    | .threw => { s.tick with thread_ := some .leaving }
  else { s.unregisterFd k e.fd with thread_ := some (.handling rest) }

/-- What is done with an accepted client. -/
def admitClient (client : ℤ) (rest : List EpollEvent) (s : Server) : Server :=
  if s.state_ ≠ .kRunning then { s.close client with thread_ := some (.handling rest) }
  else
    let (ok, s) := s.registerFd k client true
    if ok then { s with thread_ := some (.handling rest) }
    else { s.close client with thread_ := some (.handling rest) }

/-- The next step of the thread; none when there is no thread that has one. -/
def runStep (s : Server) : Option Server :=
  match s.thread_ with
  | none => none
  | some .waiting =>
      match k.epoll_wait s.world.interest s.world.calls with
      | .interrupted => some s.tick
      | .failed => some { s.tick with thread_ := some .leaving }
      | .events batch => some { s.tick with thread_ := some (.handling batch) }
  | some (.handling []) => some { s with thread_ := some .waiting }
  | some (.handling (e :: rest)) => some (s.handle k e rest)
  | some (.accepting client rest) => some (s.admitClient k client rest)
  | some .leaving => some { (s.closeClientFds k).closeListening with thread_ := some .returned }
  | some .returned => none

/-- The steps of the owner and of the thread. -/
inductive Action where
  | start
  | stop
  | join
  | run
  deriving DecidableEq, Repr

/-- One step; none when it is not possible.  The owner makes one call at a time. -/
def step (s : Server) : Action → Option Server
  | .start => if s.joining = true then none else some (s.start k).2
  | .stop => if s.joining = true then none else some s.stopBegin
  | .join =>
      if s.joining = true ∧ (s.thread_ = none ∨ s.thread_ = some .returned) then
        some (s.stopEnd k)
      else none
  | .run => s.runStep k

/-! ## Who owns a descriptor -/

/-- The descriptor a member names, when it names one. -/
def named (fd : ℤ) : List ℤ := if 0 ≤ fd then [fd] else []

@[simp] lemma named_neg : named (-1) = [] := rfl

lemma named_of_nonneg {fd : ℤ} (h : 0 ≤ fd) : named fd = [fd] := if_pos h

lemma named_of_neg {fd : ℤ} (h : fd < 0) : named fd = [] := if_neg (by omega)

/-- The descriptors that the members other than `client_fd_` name. -/
def handles (s : Server) : List ℤ :=
  named s.epoll_fd_ ++ (named s.wakeup_fd_ ++ named s.listening_fd_)

/-- The descriptors an event may be about. -/
def Watched (s : Server) (fd : ℤ) : Prop :=
  fd = s.wakeup_fd_ ∨ fd = s.listening_fd_ ∨ fd ∈ s.client_fd_

/-- The open descriptors are those the members name and the clients `c`, which are in the hands of
the event loop. -/
structure Owns (s : Server) (c : List ℤ) : Prop where
  in_turn : Use.InTurn s.world.log s.world.opened
  opened : s.world.opened.Perm (s.handles ++ (s.client_fd_ ++ c))
  accepted : s.world.accepted.Perm (s.client_fd_ ++ c)
  interest : ∀ fd ∈ s.world.interest, fd ∈ s.world.opened ∧ s.Watched fd

lemma Owns.nodup {s : Server} {c : List ℤ} (h : s.Owns c) :
    (s.handles ++ (s.client_fd_ ++ c)).Nodup :=
  h.opened.nodup_iff.mp h.in_turn.nodup

/-- What the owner and the thread know of each other. -/
def mode (s : Server) : ServerState × Option RunPoint × Bool := (s.state_, s.thread_, s.joining)

/-- `s'` has the members and descriptors of `s` and watches at most the descriptors `new`
besides. -/
structure Keeps (new : List ℤ) (s s' : Server) : Prop where
  epoll : s'.epoll_fd_ = s.epoll_fd_
  wakeup : s'.wakeup_fd_ = s.wakeup_fd_
  listening : s'.listening_fd_ = s.listening_fd_
  clients : s'.client_fd_ = s.client_fd_
  mode : s'.mode = s.mode
  log : s'.world.log = s.world.log
  opened : s'.world.opened = s.world.opened
  accepted : s'.world.accepted = s.world.accepted
  interest : ∀ fd ∈ s'.world.interest, fd ∈ s.world.interest ∨ fd ∈ new

namespace Keeps

variable {new : List ℤ} {s s' s'' : Server}

lemma of_eq (hmembers : (s'.epoll_fd_, s'.wakeup_fd_, s'.listening_fd_, s'.client_fd_, s'.mode) =
      (s.epoll_fd_, s.wakeup_fd_, s.listening_fd_, s.client_fd_, s.mode))
    (hworld : (s'.world.log, s'.world.opened, s'.world.accepted) =
      (s.world.log, s.world.opened, s.world.accepted))
    (hinterest : ∀ fd ∈ s'.world.interest, fd ∈ s.world.interest ∨ fd ∈ new) :
    Keeps new s s' := by
  simp only [Prod.mk.injEq] at hmembers hworld
  obtain ⟨hepoll, hwakeup, hlistening, hclients, hmode⟩ := hmembers
  obtain ⟨hlog, hopened, haccepted⟩ := hworld
  exact ⟨hepoll, hwakeup, hlistening, hclients, hmode, hlog, hopened, haccepted, hinterest⟩

lemma refl (s : Server) : Keeps new s s := of_eq rfl rfl fun _ => .inl

lemma trans (h : Keeps new s s') (h' : Keeps new s' s'') : Keeps new s s'' where
  epoll := h'.epoll.trans h.epoll
  wakeup := h'.wakeup.trans h.wakeup
  listening := h'.listening.trans h.listening
  clients := h'.clients.trans h.clients
  mode := h'.mode.trans h.mode
  log := h'.log.trans h.log
  opened := h'.opened.trans h.opened
  accepted := h'.accepted.trans h.accepted
  interest fd hfd := (h'.interest fd hfd).elim (h.interest fd) .inr

lemma handles (h : Keeps new s s') : s'.handles = s.handles := by
  rw [Server.handles, Server.handles, h.epoll, h.wakeup, h.listening]

lemma watched_iff (h : Keeps new s s') {fd : ℤ} : s'.Watched fd ↔ s.Watched fd := by
  rw [Watched, Watched, h.wakeup, h.listening, h.clients]

lemma owns (h : Keeps new s s') {c : List ℤ} (hs : s.Owns c)
    (hnew : ∀ fd ∈ new, fd ∈ s.world.opened ∧ s.Watched fd) : s'.Owns c where
  in_turn := by
    rw [h.log, h.opened]
    exact hs.in_turn
  opened := by
    rw [h.opened, h.handles, h.clients]
    exact hs.opened
  accepted := by
    rw [h.accepted, h.clients]
    exact hs.accepted
  interest fd hfd := by
    rw [h.opened, h.watched_iff]
    exact (h.interest fd hfd).elim (hs.interest fd) (hnew fd)

/-- Nothing else is watched. -/
lemma owns_of_nil (h : Keeps [] s s') {c : List ℤ} (hs : s.Owns c) : s'.Owns c :=
  h.owns hs (by simp)

end Keeps

variable {k} {new : List ℤ}

lemma keeps_call (c : SystemCall) (s : Server) : Keeps new s (s.call k c).2 :=
  .of_eq rfl rfl fun _ => .inl

lemma keeps_tick (s : Server) : Keeps new s s.tick := .of_eq rfl rfl fun _ => .inl

lemma keeps_both {f g : Server → Bool × Server} (hf : ∀ s, Keeps new s (f s).2)
    (hg : ∀ s, Keeps new s (g s).2) (s : Server) : Keeps new s (both f g s).2 := by
  rw [both]
  split
  · exact (hf s).trans (hg _)
  · exact hf s

lemma keeps_setNonBlocking (fd : ℤ) (s : Server) : Keeps new s (s.setNonBlocking k fd).2 :=
  keeps_both (keeps_call _) (keeps_call _) s

lemma keeps_setSocketTimeouts (fd : ℤ) (s : Server) : Keeps new s (s.setSocketTimeouts k fd).2 :=
  keeps_both (keeps_call _) (keeps_call _) s

lemma keeps_unwatch (fd : ℤ) (s : Server) :
    Keeps new s { s with world := s.world.unwatch k fd } := by
  refine .of_eq rfl ?_ ?_ <;> simp only [Descriptors.unwatch] <;> split
  any_goals rfl
  · exact fun d hd => .inl (List.mem_filter.mp hd).1
  · exact fun _ => .inl

lemma keeps_watch {fd : ℤ} (hfd : fd ∈ new) (s : Server) : Keeps new s (s.watch k fd).2 := by
  refine .of_eq rfl ?_ ?_ <;> simp only [watch, Descriptors.watch] <;> split
  any_goals rfl
  · intro d hd
    rcases List.mem_append.mp hd with hd | hd
    · exact .inl hd
    · exact .inr (List.mem_singleton.mp hd ▸ hfd)
  · exact fun _ => .inl

lemma keeps_registerFd {fd : ℤ} (hfd : fd ∈ new) (s : Server) :
    Keeps new s (s.registerFd k fd false).2 :=
  keeps_both (keeps_setNonBlocking fd) (keeps_both (keeps_watch hfd) .refl) s

/-! ## Closing -/

/-- Closing a descriptor that a member names, which the member then forgets. -/
lemma Owns.close_member {s s' : Server} {c : List ℤ} (h : s.Owns c) (fd : ℤ)
    (hworld : s'.world = s.world.close fd) (hclients : s'.client_fd_ = s.client_fd_)
    (hhandles : s.handles.Perm (fd :: s'.handles))
    (hwatched : ∀ d, d ≠ fd → s.Watched d → s'.Watched d) : s'.Owns c := by
  have hperm : s.world.opened.Perm (fd :: (s'.handles ++ (s'.client_fd_ ++ c))) := by
    rw [hclients]
    exact h.opened.trans (hhandles.append_right _)
  have hmem : fd ∈ s.world.opened := hperm.mem_iff.mpr List.mem_cons_self
  have hnot : fd ∉ s.world.accepted := by
    -- no client has the descriptor of another member
    rw [h.accepted.mem_iff]
    exact List.disjoint_of_nodup_append h.nodup (hhandles.mem_iff.mpr List.mem_cons_self)
  refine ⟨?_, ?_, ?_, ?_⟩ <;> rw [hworld]
  · exact h.in_turn.release hmem
  · have := hperm.erase fd
    rwa [List.erase_cons_head] at this
  · rw [Descriptors.close, List.erase_of_not_mem hnot, hclients]
    exact h.accepted
  · intro d hd
    obtain ⟨hd, hne⟩ := List.mem_filter.mp hd
    have hne : d ≠ fd := of_decide_eq_true hne
    obtain ⟨hopen, hw⟩ := h.interest d hd
    exact ⟨(List.mem_erase_of_ne hne).mpr hopen, hwatched d hne hw⟩

/-- Closing a client, which is then forgotten; until then it may have been watched. -/
lemma Owns.close_client {s t s' : Server} {c c' : List ℤ} (h : s.Owns c) {fd : ℤ}
    (hkeep : Keeps [fd] s t) (hworld : s'.world = t.world.close fd)
    (hhandles : s'.handles = s.handles)
    (hclients : (s.client_fd_ ++ c).Perm (fd :: (s'.client_fd_ ++ c')))
    (hwatched : ∀ d, d ≠ fd → s.Watched d → s'.Watched d) : s'.Owns c' := by
  have hperm : s.world.opened.Perm (fd :: (s'.handles ++ (s'.client_fd_ ++ c'))) := by
    rw [hhandles]
    exact (h.opened.trans (hclients.append_left _)).trans List.perm_middle
  have hmem : fd ∈ s.world.opened := hperm.mem_iff.mpr List.mem_cons_self
  refine ⟨?_, ?_, ?_, ?_⟩ <;> rw [hworld]
  · rw [Descriptors.close, hkeep.log, hkeep.opened]
    exact h.in_turn.release hmem
  · have := hperm.erase fd
    rw [List.erase_cons_head] at this
    rwa [Descriptors.close, hkeep.opened]
  · have := (h.accepted.trans hclients).erase fd
    rw [List.erase_cons_head] at this
    rwa [Descriptors.close, hkeep.accepted]
  · intro d hd
    obtain ⟨hd, hne⟩ := List.mem_filter.mp hd
    have hne : d ≠ fd := of_decide_eq_true hne
    obtain ⟨hopen, hw⟩ := (hkeep.interest d hd).elim (h.interest d)
      fun hd => absurd (List.mem_singleton.mp hd) hne
    rw [Descriptors.close, hkeep.opened]
    exact ⟨(List.mem_erase_of_ne hne).mpr hopen, hwatched d hne hw⟩

/-- `unregisterFd` keeps everything else. -/
lemma Owns.unregisterFd {s : Server} {c : List ℤ} (h : s.Owns c) (fd : ℤ)
    (hfd : fd ∈ s.client_fd_) : (s.unregisterFd k fd).Owns c := by
  have hclose : ∀ t : Server, Keeps [fd] s t →
      (({ t with client_fd_ := t.client_fd_.erase fd } : Server).close fd).Owns c := by
    intro t hkeep
    refine h.close_client hkeep rfl hkeep.handles ?_ ?_
    · change (s.client_fd_ ++ c).Perm (fd :: (t.client_fd_.erase fd ++ c))
      rw [hkeep.clients]
      exact (List.perm_cons_erase hfd).append_right c
    · intro d hne hd
      rcases hkeep.watched_iff.mpr hd with hd | hd | hd
      · exact .inl hd
      · exact .inr (.inl hd)
      · exact .inr (.inr ((List.mem_erase_of_ne hne).mpr hd))
  rw [Server.unregisterFd]
  split
  · exact hclose _ (keeps_unwatch fd s)
  · exact hclose _ (.refl s)

lemma unregisterFd_client_fd_ (fd : ℤ) (s : Server) :
    (s.unregisterFd k fd).client_fd_ = s.client_fd_.erase fd := by
  rw [unregisterFd]
  split <;> rfl

lemma unregisterFd_mode (fd : ℤ) (s : Server) : (s.unregisterFd k fd).mode = s.mode := by
  rw [unregisterFd]
  split <;> rfl

lemma closeClients_mode (n : ℕ) (s : Server) : (closeClients k n s).mode = s.mode := by
  induction n generalizing s with
  | zero => rfl
  | succ n ih =>
      rw [closeClients]
      split
      · rfl
      · rw [ih, unregisterFd_mode]

/-- **The loop of `closeClientFds` ends with no client left.** -/
lemma Owns.closeClients {s : Server} {c : List ℤ} (h : s.Owns c) {n : ℕ}
    (hn : s.client_fd_.length = n) :
    (s.closeClients k n).Owns c ∧ (s.closeClients k n).client_fd_ = [] := by
  induction n generalizing s with
  | zero => exact ⟨h, List.length_eq_zero_iff.mp hn⟩
  | succ n ih =>
      rw [Server.closeClients]
      cases hlast : s.client_fd_.getLast? with
      | none => exact ⟨h, List.getLast?_eq_none_iff.mp hlast⟩
      | some fd =>
          have hmem := List.mem_of_getLast? hlast
          refine ih (h.unregisterFd fd hmem) ?_
          rw [unregisterFd_client_fd_, List.length_erase_of_mem hmem, hn]
          rfl

lemma Owns.closeClientFds {s : Server} {c : List ℤ} (h : s.Owns c) :
    (s.closeClientFds k).Owns c ∧ (s.closeClientFds k).client_fd_ = [] :=
  h.closeClients rfl

lemma Owns.closeListening {s : Server} {c : List ℤ} (h : s.Owns c) :
    s.closeListening.Owns c ∧ named s.closeListening.listening_fd_ = [] := by
  rw [Server.closeListening]
  split
  case isTrue hfd =>
    refine ⟨h.close_member s.listening_fd_ rfl rfl ?_ ?_, rfl⟩
    · change (named _ ++ (named _ ++ named s.listening_fd_)).Perm
        (_ :: (named _ ++ (named _ ++ named (-1))))
      rw [named_of_nonneg hfd, named_neg, List.append_nil, ← List.append_assoc]
      exact List.perm_append_singleton _ _
    · rintro d hne (hd | hd | hd)
      · exact .inl hd
      · exact absurd hd hne
      · exact .inr (.inr hd)
  case isFalse hfd => exact ⟨h, named_of_neg (by omega)⟩

lemma Owns.closeWakeup {s : Server} {c : List ℤ} (h : s.Owns c) :
    (s.closeWakeup k).Owns c ∧ named (s.closeWakeup k).wakeup_fd_ = [] := by
  have hclose : ∀ t : Server, Keeps [] s t → 0 ≤ t.wakeup_fd_ →
      ({ t.close t.wakeup_fd_ with wakeup_fd_ := -1 } : Server).Owns c := by
    intro t hkeep hfd
    refine (hkeep.owns_of_nil h).close_member t.wakeup_fd_ rfl rfl ?_ ?_
    · change (named _ ++ (named t.wakeup_fd_ ++ named _)).Perm
        (_ :: (named _ ++ (named (-1) ++ named _)))
      rw [named_of_nonneg hfd, named_neg]
      exact List.perm_middle
    · rintro d hne (hd | hd | hd)
      · exact absurd hd hne
      · exact .inr (.inl hd)
      · exact .inr (.inr hd)
  rw [Server.closeWakeup]
  split
  case isTrue hfd =>
    by_cases hepoll : 0 ≤ s.epoll_fd_
    · rw [if_pos hepoll]
      exact ⟨hclose _ (keeps_unwatch _ s) hfd, rfl⟩
    · rw [if_neg hepoll]
      exact ⟨hclose s (.refl s) hfd, rfl⟩
  case isFalse hfd => exact ⟨h, named_of_neg (by omega)⟩

lemma Owns.closeEpoll {s : Server} {c : List ℤ} (h : s.Owns c) :
    s.closeEpoll.Owns c ∧ named s.closeEpoll.epoll_fd_ = [] := by
  rw [Server.closeEpoll]
  split
  case isTrue hfd =>
    refine ⟨h.close_member s.epoll_fd_ rfl rfl ?_ fun _ _ hd => hd, rfl⟩
    change (named s.epoll_fd_ ++ _).Perm (_ :: (named (-1) ++ _))
    rw [named_of_nonneg hfd, named_neg]
    exact List.Perm.refl _
  case isFalse hfd => exact ⟨h, named_of_neg (by omega)⟩

lemma closeListening_frame (s : Server) :
    s.closeListening.client_fd_ = s.client_fd_ ∧ s.closeListening.mode = s.mode := by
  rw [closeListening]
  split <;> exact ⟨rfl, rfl⟩

lemma closeWakeup_frame (s : Server) : (s.closeWakeup k).client_fd_ = s.client_fd_ ∧
    (s.closeWakeup k).listening_fd_ = s.listening_fd_ ∧ (s.closeWakeup k).mode = s.mode := by
  by_cases hepoll : 0 ≤ s.epoll_fd_
  · rw [closeWakeup, if_pos hepoll]
    split <;> exact ⟨rfl, rfl, rfl⟩
  · rw [closeWakeup, if_neg hepoll]
    split <;> exact ⟨rfl, rfl, rfl⟩

lemma closeEpoll_frame (s : Server) : s.closeEpoll.client_fd_ = s.client_fd_ ∧
    s.closeEpoll.listening_fd_ = s.listening_fd_ ∧ s.closeEpoll.wakeup_fd_ = s.wakeup_fd_ ∧
    s.closeEpoll.mode = s.mode := by
  rw [closeEpoll]
  split <;> exact ⟨rfl, rfl, rfl, rfl⟩

lemma closeStartupDescriptors_mode (s : Server) :
    (s.closeStartupDescriptors k).mode = s.mode := by
  rw [closeStartupDescriptors, (closeEpoll_frame _).2.2.2, (closeWakeup_frame _).2.2,
    (closeListening_frame _).2]
  exact closeClients_mode _ s

/-- **`closeStartupDescriptors` leaves nothing open.** -/
lemma Owns.closeStartupDescriptors {s : Server} (h : s.Owns []) :
    (s.closeStartupDescriptors k).Owns [] ∧
      (s.closeStartupDescriptors k).world.opened = [] := by
  obtain ⟨h₁, hclients⟩ := h.closeClientFds (k := k)
  obtain ⟨h₂, hlistening⟩ := h₁.closeListening
  obtain ⟨h₃, hwakeup⟩ := h₂.closeWakeup (k := k)
  obtain ⟨h₄, hepoll⟩ := h₃.closeEpoll
  obtain ⟨hclients₂, -⟩ := closeListening_frame (s.closeClientFds k)
  obtain ⟨hclients₃, hlistening₃, -⟩ :=
    closeWakeup_frame (k := k) (s.closeClientFds k).closeListening
  obtain ⟨hclients₄, hlistening₄, hwakeup₄, -⟩ :=
    closeEpoll_frame ((s.closeClientFds k).closeListening.closeWakeup k)
  refine ⟨h₄, List.perm_nil.mp (h₄.opened.trans (List.Perm.of_eq ?_))⟩
  rw [handles, hepoll, hwakeup₄, hwakeup, hlistening₄, hlistening₃, hlistening, hclients₄,
    hclients₃, hclients₂, hclients]
  rfl

/-! ## The life of the server -/

/-- The client that `run` holds in its local variable. -/
def inHand (s : Server) : List ℤ :=
  match s.thread_ with
  | some (.accepting client _) => [client]
  | _ => []

/-- The events of the batch that are still to come. -/
def pending (s : Server) : List EpollEvent :=
  match s.thread_ with
  | some (.handling rest) => rest
  | some (.accepting _ rest) => rest
  | _ => []

/-- The invariant of the two threads. -/
structure Lifecycle (s : Server) : Prop where
  owns : s.Owns s.inHand
  stopped : s.thread_ = none → s.world.opened = [] ∧ s.state_ = .kStopped
  started : s.thread_ ≠ none → s.state_ = .kRunning ∨ s.state_ = .kStopping
  pending : ∀ e ∈ s.pending, s.Watched e.fd
  distinct : (s.pending.map EpollEvent.fd).Nodup

lemma lifecycle_new : Lifecycle {} where
  owns := ⟨.nil, .nil, .nil, by simp⟩
  stopped _ := ⟨rfl, rfl⟩
  started h := absurd rfl h
  pending := by simp [Server.pending]
  distinct := by simp [Server.pending]

/-- Before the thread exists. -/
structure Starting (s : Server) : Prop where
  owns : s.Owns []
  thread : s.thread_ = none

/-- Nothing is open and there is no thread. -/
lemma Owns.lifecycle {s : Server} (h : s.Owns []) (hopened : s.world.opened = [])
    (hthread : s.thread_ = none) (hstate : s.state_ = .kStopped) : s.Lifecycle := by
  have hhand : s.inHand = [] := by rw [inHand, hthread]
  have hpending : s.pending = [] := by rw [Server.pending, hthread]
  refine ⟨?_, fun _ => ⟨hopened, hstate⟩, fun hsome => absurd hthread hsome, ?_, ?_⟩
  · rwa [hhand]
  · simp [hpending]
  · simp [hpending]

/-- How `start` returns: when it fails there is no thread. -/
def Returns (r : Bool × Server) : Prop := r.2.Lifecycle ∧ (r.1 = false → r.2.thread_ = none)

lemma Starting.giveUp {s : Server} (h : s.Starting) : Returns (s.giveUp k) := by
  obtain ⟨howns, hopened⟩ := h.owns.closeStartupDescriptors (k := k)
  have hthread : (s.closeStartupDescriptors k).thread_ = none :=
    (congrArg (fun m => m.2.1) (closeStartupDescriptors_mode s)).trans h.thread
  refine ⟨Owns.lifecycle ?_ hopened hthread rfl, fun _ => hthread⟩
  exact ⟨howns.in_turn, howns.opened, howns.accepted, howns.interest⟩

/-- **One part of `start`**: from `P` it leads to `Q`, and when it fails to a state in which the
descriptors are owned. -/
def Part (P : Server → Prop) (f : Server → Bool × Server) (Q : Server → Prop) : Prop :=
  ∀ s, P s → (f s).2.Starting ∧ ((f s).1 = true → Q (f s).2)

lemma Part.attempt {P Q : Server → Prop} {f g : Server → Bool × Server} (hf : Part P f Q)
    (hg : ∀ s, Q s → Returns (g s)) : ∀ s, P s → Returns (attempt k f g s) := by
  intro s hs
  obtain ⟨hstarting, hok⟩ := hf s hs
  rw [Server.attempt]
  split
  case isTrue h => exact hg _ (hok h)
  case isFalse => exact hstarting.giveUp

/-- A descriptor that is obtained for a member that named none. -/
lemma Owns.obtain_member {s : Server} {c : List ℤ} (h : s.Owns c) (s' : Server)
    (hworld : s'.world = (s.world.obtain_ k).2) (hclients : s'.client_fd_ = s.client_fd_)
    (hhandles : s'.handles.Perm (named (s.world.obtain_ k).1 ++ s.handles))
    (hinterest : s.world.interest = []) : s'.Owns c ∧ s'.world.interest = [] := by
  rw [Descriptors.obtain_] at hworld hhandles
  by_cases hneg : k.descriptor s.world.opened s.world.calls < 0
  · rw [if_pos hneg] at hworld hhandles
    rw [named_of_neg hneg, List.nil_append] at hhandles
    have hnil : s'.world.interest = [] := by rw [hworld, hinterest]
    refine ⟨⟨?_, ?_, ?_, by simp [hnil]⟩, hnil⟩ <;> rw [hworld]
    · exact h.in_turn
    · rw [hclients]
      exact h.opened.trans (hhandles.symm.append_right _)
    · rw [hclients]
      exact h.accepted
  · rw [if_neg hneg] at hworld hhandles
    have hnonneg := not_lt.mp hneg
    rw [named_of_nonneg hnonneg] at hhandles
    have hnil : s'.world.interest = [] := by rw [hworld, hinterest]
    refine ⟨⟨?_, ?_, ?_, by simp [hnil]⟩, hnil⟩ <;> rw [hworld]
    · exact h.in_turn.take (k.fresh _ _ hnonneg)
    · rw [hclients]
      refine (List.perm_append_singleton _ _).trans ?_
      exact (h.opened.cons _).trans (hhandles.symm.append_right _)
    · rw [hclients]
      exact h.accepted

/-- The members at the beginning of `start`: those from the `n`-th on name nothing, those before it
name a descriptor, and nothing is watched. -/
structure Opening (n : ℕ) (s : Server) : Prop extends Starting s where
  interest : s.world.interest = []
  epoll : n = 0 → s.epoll_fd_ < 0
  wakeup : if n ≤ 1 then s.wakeup_fd_ < 0 else 0 ≤ s.wakeup_fd_
  listening : if n ≤ 2 then s.listening_fd_ < 0 else 0 ≤ s.listening_fd_

lemma Keeps.starting {s s' : Server} (h : Keeps new s s') (hs : s.Starting)
    (hnew : ∀ fd ∈ new, fd ∈ s.world.opened ∧ s.Watched fd) : s'.Starting :=
  ⟨h.owns hs.owns hnew, (congrArg (fun m => m.2.1) h.mode).trans hs.thread⟩

lemma Keeps.opening {s s' : Server} (h : Keeps [] s s') {n : ℕ} (hs : s.Opening n) :
    s'.Opening n where
  toStarting := h.starting hs.toStarting (by simp)
  interest := by
    rw [List.eq_nil_iff_forall_not_mem]
    intro d hd
    have := h.interest d hd
    rw [hs.interest] at this
    simp at this
  epoll := by
    rw [h.epoll]
    exact hs.epoll
  wakeup := by
    rw [h.wakeup]
    exact hs.wakeup
  listening := by
    rw [h.listening]
    exact hs.listening

lemma part_openEpoll : Part (Opening 0) (openEpoll k) (Opening 1) := by
  intro s hs
  have hhandles : (s.openEpoll k).2.handles.Perm
      (named (s.world.obtain_ k).1 ++ s.handles) := by
    rw [Server.handles, Server.handles, named_of_neg (hs.epoll rfl)]
    exact List.Perm.refl _
  obtain ⟨howns, hinterest⟩ := hs.owns.obtain_member (s.openEpoll k).2 rfl rfl hhandles
    hs.interest
  exact ⟨⟨howns, hs.thread⟩, fun _ =>
    ⟨⟨howns, hs.thread⟩, hinterest, nofun, hs.wakeup, hs.listening⟩⟩

/-- `setNonBlocking` behind a call that obtains a descriptor. -/
lemma Starting.nonBlocking {s : Server} (hs : s.Starting) {fd : ℤ} {n : ℕ}
    (hopen : 0 ≤ fd → s.Opening n) :
    (if fd < 0 then (false, s) else s.setNonBlocking k fd).2.Starting ∧
      ((if fd < 0 then (false, s) else s.setNonBlocking k fd).1 = true →
        (if fd < 0 then (false, s) else s.setNonBlocking k fd).2.Opening n) := by
  split
  case isTrue => exact ⟨hs, nofun⟩
  case isFalse hneg =>
    have := (keeps_setNonBlocking (k := k) fd s).opening (hopen (not_lt.mp hneg))
    exact ⟨this.toStarting, fun _ => this⟩

lemma part_openWakeup : Part (Opening 1) (openWakeup k) (Opening 2) := by
  intro s hs
  let t : Server := { s with
    wakeup_fd_ := (s.world.obtain_ k).1
    world := (s.world.obtain_ k).2 }
  have hhandles : t.handles.Perm (named (s.world.obtain_ k).1 ++ s.handles) := by
    have hneg : s.wakeup_fd_ < 0 := hs.wakeup
    rw [Server.handles, Server.handles, named_of_neg hneg, List.nil_append]
    exact List.perm_append_comm_assoc _ _ _
  obtain ⟨howns, hinterest⟩ := hs.owns.obtain_member t rfl rfl hhandles hs.interest
  exact Starting.nonBlocking ⟨howns, hs.thread⟩
    fun hfd => ⟨⟨howns, hs.thread⟩, hinterest, nofun, hfd, hs.listening⟩

lemma part_openListening : Part (Opening 2) (openListening k) (Opening 3) := by
  intro s hs
  let t : Server := { s with
    listening_fd_ := (s.world.obtain_ k).1
    world := (s.world.obtain_ k).2 }
  have hhandles : t.handles.Perm (named (s.world.obtain_ k).1 ++ s.handles) := by
    have hneg : s.listening_fd_ < 0 := hs.listening
    rw [Server.handles, Server.handles, named_of_neg hneg, List.append_nil, ← List.append_assoc]
    exact List.perm_append_comm
  obtain ⟨howns, hinterest⟩ := hs.owns.obtain_member t rfl rfl hhandles hs.interest
  exact Starting.nonBlocking ⟨howns, hs.thread⟩
    fun hfd => ⟨⟨howns, hs.thread⟩, hinterest, nofun, hs.wakeup, hfd⟩

/-- A part that obtains nothing. -/
lemma part_of_keeps {n : ℕ} {f : Server → Bool × Server} (hf : ∀ s, Keeps [] s (f s).2) :
    Part (Opening n) f (Opening n) := by
  intro s hs
  have := (hf s).opening hs
  exact ⟨this.toStarting, fun _ => this⟩

lemma keeps_setOptions (s : Server) : Keeps [] s (s.setOptions k).2 :=
  keeps_both (keeps_call _) (keeps_setSocketTimeouts _) s

lemma keeps_bindAndListen (s : Server) : Keeps [] s (s.bindAndListen k).2 :=
  keeps_both (keeps_call _) (keeps_call _) s

lemma keeps_readPort (s : Server) : Keeps [] s (s.readPort k).2 := by
  have hcall : Keeps [] s (s.call k (.getsockname s.listening_fd_)).2 := keeps_call _ s
  simp only [readPort]
  split
  · exact hcall.trans (.of_eq rfl rfl fun _ => .inl)
  · exact hcall

lemma part_registerBoth : Part (Opening 3) (registerBoth k) Starting := by
  intro s hs
  have hkeep : Keeps [s.wakeup_fd_, s.listening_fd_] s (s.registerBoth k).2 :=
    keeps_both (keeps_registerFd (by simp)) (keeps_registerFd (by simp)) s
  -- both descriptors are open when `epoll_ctl` gets them
  have hwakeup : 0 ≤ s.wakeup_fd_ := hs.wakeup
  have hlistening : 0 ≤ s.listening_fd_ := hs.listening
  have hstarting := hkeep.starting hs.toStarting fun fd hfd => by
    rw [hs.owns.opened.mem_iff, handles, named_of_nonneg hwakeup, named_of_nonneg hlistening]
    rcases List.mem_pair.mp hfd with rfl | rfl
    · exact ⟨by simp, .inl rfl⟩
    · exact ⟨by simp, .inr (.inl rfl)⟩
  exact ⟨hstarting, fun _ => hstarting⟩

lemma Starting.launch {s : Server} (hs : s.Starting) : Returns (s.launch k) := by
  have hkeep : Keeps [] { s with state_ := .kRunning }
      (call k .thread { s with state_ := .kRunning }).2 := keeps_call _ _
  have howns : ({ s with state_ := .kRunning } : Server).Owns [] :=
    ⟨hs.owns.in_turn, hs.owns.opened, hs.owns.accepted, hs.owns.interest⟩
  have hstarting := hkeep.starting ⟨howns, hs.thread⟩ (by simp)
  simp only [Server.launch]
  split
  case isTrue =>
    refine ⟨⟨?_, nofun, fun _ => .inl rfl, nofun, List.nodup_nil⟩, nofun⟩
    exact ⟨hstarting.owns.in_turn, hstarting.owns.opened, hstarting.owns.accepted,
      hstarting.owns.interest⟩
  case isFalse => exact hstarting.giveUp

/-- **`start` keeps the invariant**, and when it fails in a stopped server it leaves no thread. -/
lemma Lifecycle.start {s : Server} (h : s.Lifecycle) : (s.start k).2.Lifecycle ∧
    (s.state_ = .kStopped → (s.start k).1 = false → (s.start k).2.thread_ = none) := by
  rw [Server.start]
  split
  case isTrue hstate => exact ⟨h, fun hstopped => absurd hstopped hstate⟩
  case isFalse hstate =>
    have hstopped : s.state_ = .kStopped := not_not.mp hstate
    have hthread : s.thread_ = none := by
      by_contra hsome
      have := h.started hsome
      rw [hstopped] at this
      simp at this
    obtain ⟨hopened, -⟩ := h.stopped hthread
    have hhand : s.inHand = [] := by rw [inHand, hthread]
    have howns := h.owns
    rw [hhand] at howns
    -- nothing is open, so no member names a descriptor and nothing is watched
    have hnil : s.handles = [] := by
      have := howns.opened
      rw [hopened, List.nil_perm] at this
      exact (List.append_eq_nil_iff.mp this).1
    have hneg : ∀ fd, named fd = [] → fd < 0 := by
      intro fd hfd
      by_contra hge
      rw [named_of_nonneg (not_lt.mp hge)] at hfd
      cases hfd
    rw [handles, List.append_eq_nil_iff, List.append_eq_nil_iff] at hnil
    obtain ⟨hepoll, hwakeup, hlistening⟩ := hnil
    have hinterest : s.world.interest = [] := by
      rw [List.eq_nil_iff_forall_not_mem]
      intro d hd
      have := (h.owns.interest d hd).1
      rw [hopened] at this
      cases this
    have hopening : ({ s with state_ := .kStarting } : Server).Opening 0 :=
      ⟨⟨⟨howns.in_turn, howns.opened, howns.accepted, howns.interest⟩, hthread⟩,
        hinterest, fun _ => hneg _ hepoll, hneg _ hwakeup, hneg _ hlistening⟩
    refine And.imp_right (fun hfailed _ => hfailed) ?_
    exact part_openEpoll.attempt (part_openWakeup.attempt (part_openListening.attempt
      ((part_of_keeps keeps_setOptions).attempt ((part_of_keeps keeps_bindAndListen).attempt
        ((part_of_keeps keeps_readPort).attempt (part_registerBoth.attempt
          fun _ => Starting.launch)))))) _ hopening

lemma Lifecycle.stopBegin {s : Server} (h : s.Lifecycle) : s.stopBegin.Lifecycle := by
  have howns : ∀ (st : ServerState) (b : Bool),
      ({ s with state_ := st, joining := b } : Server).Owns s.inHand := fun _ _ =>
    ⟨h.owns.in_turn, h.owns.opened, h.owns.accepted, h.owns.interest⟩
  rw [Server.stopBegin]
  split
  case isTrue => exact h
  case isFalse =>
    split
    case isTrue hrunning =>
      refine ⟨howns _ _, fun hnone => ?_, fun _ => .inr rfl, h.pending, h.distinct⟩
      have := (h.stopped hnone).2
      rw [hrunning] at this
      cases this
    case isFalse => exact ⟨howns _ _, h.stopped, h.started, h.pending, h.distinct⟩

/-- **What `stop` leaves behind.** -/
lemma Owns.stopEnd {s : Server} (h : s.Owns []) :
    (s.stopEnd k).Lifecycle ∧ (s.stopEnd k).world.opened = [] := by
  have hs : ({ s with thread_ := none } : Server).Owns [] :=
    ⟨h.in_turn, h.opened, h.accepted, h.interest⟩
  obtain ⟨howns, hopened⟩ := hs.closeStartupDescriptors (k := k)
  have hthread : (s.stopEnd k).thread_ = none :=
    congrArg (fun m => m.2.1)
      (closeStartupDescriptors_mode (k := k) { s with thread_ := none })
  refine ⟨Owns.lifecycle ?_ hopened hthread rfl, hopened⟩
  exact ⟨howns.in_turn, howns.opened, howns.accepted, howns.interest⟩

/-! ## The steps of the thread -/

/-- The thread goes on. -/
lemma Lifecycle.proceed {s s' : Server} (h : s.Lifecycle) (hthread : s.thread_ ≠ none)
    (howns : s'.Owns s'.inHand) (hthread' : s'.thread_ ≠ none) (hstate : s'.state_ = s.state_)
    (hpending : ∀ e ∈ s'.pending, s'.Watched e.fd)
    (hdistinct : (s'.pending.map EpollEvent.fd).Nodup) : s'.Lifecycle where
  owns := howns
  stopped hnone := absurd hnone hthread'
  started _ := by
    rw [hstate]
    exact h.started hthread
  pending := hpending
  distinct := hdistinct

/-- `accept` puts a client into the hands of the event loop. -/
lemma Owns.accept {s : Server} (h : s.Owns []) (s' : Server)
    (hworld : s'.world = (s.world.accept k).2) (hclients : s'.client_fd_ = s.client_fd_)
    (hhandles : s'.handles = s.handles) (hwatched : ∀ d, s.Watched d → s'.Watched d) :
    if (s.world.accept k).1 < 0 then s'.Owns [] else s'.Owns [(s.world.accept k).1] := by
  rw [Descriptors.accept, Descriptors.obtain_] at hworld ⊢
  by_cases hneg : k.descriptor s.world.opened s.world.calls < 0
  · simp only [hneg, if_true] at hworld ⊢
    refine ⟨?_, ?_, ?_, ?_⟩ <;> rw [hworld]
    · exact h.in_turn
    · rw [hhandles, hclients]
      exact h.opened
    · rw [hclients]
      exact h.accepted
    · exact fun d hd => ⟨(h.interest d hd).1, hwatched d (h.interest d hd).2⟩
  · simp only [hneg, if_false] at hworld ⊢
    refine ⟨?_, ?_, ?_, ?_⟩ <;> rw [hworld]
    · exact h.in_turn.take (k.fresh _ _ (not_lt.mp hneg))
    · rw [hhandles, hclients, ← List.append_assoc]
      have := h.opened
      rw [List.append_nil] at this
      exact this.append_right _
    · rw [hclients]
      have := h.accepted
      rw [List.append_nil] at this
      exact this.append_right _
    · intro d hd
      obtain ⟨hopen, hw⟩ := h.interest d hd
      exact ⟨List.mem_append_left _ hopen, hwatched d hw⟩

/-- Registering a client adds it to the members, or leaves it in the hands of the event loop. -/
lemma registerFd_client (fd : ℤ) (s : Server) : ∃ t, Keeps [fd] s t ∧
    (s.registerFd k fd true = (true, { t with client_fd_ := t.client_fd_ ++ [fd] }) ∨
      s.registerFd k fd true = (false, t)) := by
  have h₁ : Keeps [fd] s (s.setNonBlocking k fd).2 := keeps_setNonBlocking fd s
  have h₂ := h₁.trans (keeps_watch (k := k) List.mem_cons_self (s.setNonBlocking k fd).2)
  have h₃ := h₂.trans (keeps_setSocketTimeouts (k := k) fd _)
  rw [registerFd, both]
  split
  case isFalse => exact ⟨_, h₁, .inr rfl⟩
  case isTrue =>
    rw [both]
    split
    case isFalse => exact ⟨_, h₂, .inr rfl⟩
    case isTrue =>
      simp only [if_true, keepClient]
      split
      case isTrue => exact ⟨_, h₃, .inl rfl⟩
      case isFalse => exact ⟨_, h₃.trans (keeps_unwatch fd _), .inr rfl⟩

/-- The client that was registered is a member. -/
lemma Owns.registered {s t : Server} {fd : ℤ} (h : s.Owns [fd]) (hkeep : Keeps [fd] s t) :
    ({ t with client_fd_ := t.client_fd_ ++ [fd] } : Server).Owns [] where
  in_turn := by
    change Use.InTurn t.world.log t.world.opened
    rw [hkeep.log, hkeep.opened]
    exact h.in_turn
  opened := by
    change t.world.opened.Perm (t.handles ++ ((t.client_fd_ ++ [fd]) ++ []))
    rw [hkeep.opened, hkeep.handles, hkeep.clients, List.append_nil]
    exact h.opened
  accepted := by
    change t.world.accepted.Perm ((t.client_fd_ ++ [fd]) ++ [])
    rw [hkeep.accepted, hkeep.clients, List.append_nil]
    exact h.accepted
  interest d hd := by
    change d ∈ t.world.opened ∧ _
    rw [hkeep.opened]
    rcases hkeep.interest d hd with hd | hd
    · obtain ⟨hopen, hw⟩ := h.interest d hd
      refine ⟨hopen, ?_⟩
      rcases hkeep.watched_iff.mpr hw with hw | hw | hw
      · exact .inl hw
      · exact .inr (.inl hw)
      · exact .inr (.inr (List.mem_append_left _ hw))
    · obtain rfl := List.mem_singleton.mp hd
      refine ⟨h.opened.mem_iff.mpr (by simp), .inr (.inr ?_)⟩
      exact List.mem_append_right _ List.mem_cons_self

lemma unregisterFd_watched {fd d : ℤ} {s : Server} (hne : d ≠ fd) (h : s.Watched d) :
    (s.unregisterFd k fd).Watched d := by
  have hclients : ∀ t : Server, Keeps [] s t →
      (({ t with client_fd_ := t.client_fd_.erase fd } : Server).close fd).Watched d := by
    intro t hkeep
    rcases hkeep.watched_iff.mpr h with hd | hd | hd
    · exact .inl hd
    · exact .inr (.inl hd)
    · exact .inr (.inr ((List.mem_erase_of_ne hne).mpr hd))
  rw [unregisterFd]
  split
  · exact hclients _ (keeps_unwatch fd s)
  · exact hclients _ (.refl s)

/-- The events behind the first one. -/
lemma Lifecycle.rest {s : Server} (h : s.Lifecycle) {e : EpollEvent} {rest : List EpollEvent}
    (hthread : s.thread_ = some (.handling (e :: rest))) : s.Owns [] ∧ s.Watched e.fd ∧
      (∀ e' ∈ rest, s.Watched e'.fd ∧ e'.fd ≠ e.fd) ∧ (rest.map EpollEvent.fd).Nodup := by
  have howns := h.owns
  have hpending := h.pending
  have hdistinct := h.distinct
  rw [inHand, hthread] at howns
  rw [Server.pending, hthread] at hpending hdistinct
  obtain ⟨hnot, hdistinct⟩ := List.nodup_cons.mp hdistinct
  refine ⟨howns, hpending e List.mem_cons_self, fun e' he' => ?_, hdistinct⟩
  refine ⟨hpending e' (List.mem_cons_of_mem e he'), fun heq => hnot ?_⟩
  rw [← heq]
  exact List.mem_map_of_mem he'

/-- Dropping the client the event is about. -/
lemma Lifecycle.drop {s t : Server} (h : s.Lifecycle) {e : EpollEvent} {rest : List EpollEvent}
    (hthread : s.thread_ = some (.handling (e :: rest))) (hkeep : Keeps [] s t)
    (hclient : e.fd ∈ s.client_fd_) :
    ({ t.unregisterFd k e.fd with thread_ := some (.handling rest) } : Server).Lifecycle := by
  obtain ⟨howns, -, hrest, hdistinct⟩ := h.rest hthread
  have hdropped := (hkeep.owns_of_nil howns).unregisterFd (k := k) e.fd
    (by rwa [hkeep.clients])
  refine h.proceed (by simp [hthread]) ?_ nofun ?_ ?_ hdistinct
  · exact ⟨hdropped.in_turn, hdropped.opened, hdropped.accepted, hdropped.interest⟩
  · exact (congrArg Prod.fst (unregisterFd_mode e.fd t)).trans (congrArg Prod.fst hkeep.mode)
  · intro e' he'
    obtain ⟨hw, hne⟩ := hrest e' he'
    exact unregisterFd_watched hne (hkeep.watched_iff.mpr hw)

/-- **One event keeps the invariant.** -/
lemma Lifecycle.handle {s : Server} (h : s.Lifecycle) {e : EpollEvent} {rest : List EpollEvent}
    (hthread : s.thread_ = some (.handling (e :: rest))) : (s.handle k e rest).Lifecycle := by
  obtain ⟨howns, hwatched, hrest, hdistinct⟩ := h.rest hthread
  have hsome : s.thread_ ≠ none := by simp [hthread]
  have hleaving : ∀ t : Server, Keeps [] s t →
      ({ t with thread_ := some .leaving } : Server).Lifecycle := by
    intro t hkeep
    have ht := hkeep.owns_of_nil howns
    exact h.proceed hsome ⟨ht.in_turn, ht.opened, ht.accepted, ht.interest⟩ nofun
      (congrArg Prod.fst hkeep.mode) nofun List.nodup_nil
  rw [Server.handle]
  split
  case isTrue => exact hleaving s (.refl s)
  case isFalse hwakeup =>
  split
  case isTrue => exact hleaving s (.refl s)
  case isFalse =>
  split
  case isTrue =>
    -- a client is accepted, or the call fails
    simp only
    split
    case isTrue hneg =>
      have := howns.accept
        { s with world := (s.world.accept k).2, thread_ := some (.handling rest) } rfl rfl rfl
        fun _ hd => hd
      rw [if_pos hneg] at this
      exact h.proceed hsome this nofun rfl (fun e' he' => (hrest e' he').1) hdistinct
    case isFalse hneg =>
      have := howns.accept { s with
        world := (s.world.accept k).2
        thread_ := some (.accepting (s.world.accept k).1 rest) } rfl rfl rfl fun _ hd => hd
      rw [if_neg hneg] at this
      exact h.proceed hsome this nofun rfl (fun e' he' => (hrest e' he').1) hdistinct
  case isFalse hlistening =>
  have hclient : e.fd ∈ s.client_fd_ := by
    rcases hwatched with hd | hd | hd
    · exact absurd hd hwakeup
    · exact absurd hd hlistening
    · exact hd
  split
  case isTrue =>
    split
    · have ht := (keeps_tick s).owns_of_nil howns
      exact h.proceed hsome ⟨ht.in_turn, ht.opened, ht.accepted, ht.interest⟩ nofun rfl
        (fun e' he' => (hrest e' he').1) hdistinct
    · exact h.drop hthread (keeps_tick s) hclient
    · exact hleaving _ (keeps_tick s)
  case isFalse => exact h.drop hthread (.refl s) hclient

/-- **What is done with a client keeps the invariant.** -/
lemma Lifecycle.admitClient {s : Server} (h : s.Lifecycle) {client : ℤ} {rest : List EpollEvent}
    (hthread : s.thread_ = some (.accepting client rest)) :
    (s.admitClient k client rest).Lifecycle := by
  have howns := h.owns
  have hpending := h.pending
  have hdistinct := h.distinct
  rw [inHand, hthread] at howns
  rw [Server.pending, hthread] at hpending hdistinct
  have hsome : s.thread_ ≠ none := by simp [hthread]
  have hclose : ∀ t : Server, Keeps [client] s t →
      ({ t.close client with thread_ := some (.handling rest) } : Server).Lifecycle := by
    intro t hkeep
    refine h.proceed hsome ?_ nofun (congrArg Prod.fst hkeep.mode)
      (fun e he => hkeep.watched_iff.mpr (hpending e he)) hdistinct
    refine howns.close_client hkeep rfl hkeep.handles ?_ fun d _ hd => hkeep.watched_iff.mpr hd
    change (s.client_fd_ ++ [client]).Perm (client :: (t.client_fd_ ++ []))
    rw [hkeep.clients, List.append_nil]
    exact List.perm_append_singleton _ _
  rw [Server.admitClient]
  split
  case isTrue => exact hclose s (.refl s)
  case isFalse =>
    obtain ⟨t, hkeep, heq | heq⟩ := registerFd_client (k := k) client s
    · rw [heq]
      have ht := howns.registered hkeep
      refine h.proceed hsome ⟨ht.in_turn, ht.opened, ht.accepted, ht.interest⟩ nofun
        (congrArg Prod.fst hkeep.mode) (fun e he => ?_) hdistinct
      rcases hkeep.watched_iff.mpr (hpending e he) with hd | hd | hd
      · exact .inl hd
      · exact .inr (.inl hd)
      · exact .inr (.inr (List.mem_append_left _ hd))
    · rw [heq]
      exact hclose t hkeep

/-- **Each step of the thread keeps the invariant.** -/
lemma Lifecycle.runStep {s s' : Server} (h : s.Lifecycle) (hstep : s.runStep k = some s') :
    s'.Lifecycle := by
  rw [Server.runStep] at hstep
  split at hstep
  case h_1 => cases hstep
  case h_2 hthread =>
    -- `epoll_wait`
    have hsome : s.thread_ ≠ none := by simp [hthread]
    have howns := h.owns
    rw [inHand, hthread] at howns
    have ht := (keeps_tick s).owns_of_nil howns
    split at hstep
    · cases hstep
      have hhand : s.tick.inHand = [] := by
        change s.inHand = []
        rw [inHand, hthread]
      refine h.proceed hsome ?_ hsome rfl h.pending h.distinct
      rw [hhand]
      exact ht
    · cases hstep
      exact h.proceed hsome ⟨ht.in_turn, ht.opened, ht.accepted, ht.interest⟩ nofun rfl nofun
        List.nodup_nil
    case h_3 batch hwait =>
      cases hstep
      obtain ⟨hdistinct, hinterest⟩ := k.reported _ _ _ hwait
      exact h.proceed hsome ⟨ht.in_turn, ht.opened, ht.accepted, ht.interest⟩ nofun rfl
        (fun e he => (howns.interest e.fd (hinterest e he)).2) hdistinct
  case h_3 hthread =>
    cases hstep
    have howns := h.owns
    rw [inHand, hthread] at howns
    exact h.proceed (by simp [hthread])
      ⟨howns.in_turn, howns.opened, howns.accepted, howns.interest⟩ nofun rfl nofun
        List.nodup_nil
  case h_4 e rest hthread =>
    cases hstep
    exact h.handle hthread
  case h_5 client rest hthread =>
    cases hstep
    exact h.admitClient hthread
  case h_6 hthread =>
    cases hstep
    have howns := h.owns
    rw [inHand, hthread] at howns
    obtain ⟨ht, -⟩ := (howns.closeClientFds (k := k)).1.closeListening
    refine h.proceed (by simp [hthread])
      ⟨ht.in_turn, ht.opened, ht.accepted, ht.interest⟩ nofun ?_ nofun List.nodup_nil
    exact congrArg Prod.fst (((closeListening_frame _).2).trans (closeClients_mode (k := k) _ s))
  case h_7 => cases hstep

/-- A thread that is not there or has returned holds no client. -/
lemma inHand_of_ended {s : Server} (h : s.thread_ = none ∨ s.thread_ = some .returned) :
    s.inHand = [] := by
  rcases h with h | h <;> rw [inHand, h]

/-- **Every step keeps the invariant.** -/
lemma step_lifecycle (s : Server) (a : Action) (s' : Server) (h : s.Lifecycle)
    (hstep : s.step k a = some s') : s'.Lifecycle := by
  cases a with
  | start =>
      rw [step, Option.ite_none_left_eq_some] at hstep
      obtain ⟨-, heq⟩ := hstep
      cases heq
      exact h.start.1
  | stop =>
      rw [step, Option.ite_none_left_eq_some] at hstep
      obtain ⟨-, heq⟩ := hstep
      cases heq
      exact h.stopBegin
  | join =>
      rw [step, Option.ite_none_right_eq_some] at hstep
      obtain ⟨⟨-, hended⟩, heq⟩ := hstep
      cases heq
      have howns := h.owns
      rw [inHand_of_ended hended] at howns
      exact howns.stopEnd.1
  | run => exact h.runStep hstep

/-- Nothing is open, everything that was obtained has been closed, and the server can be started. -/
structure Settled (s : Server) : Prop where
  opened : s.world.opened = []
  closed : ∀ fd, s.world.log.count (.taken fd) = s.world.log.count (.released fd)
  clients : s.client_fd_ = []
  state : s.state_ = .kStopped
  thread : s.thread_ = none

lemma Lifecycle.settled {s : Server} (h : s.Lifecycle) (hthread : s.thread_ = none) :
    s.Settled := by
  obtain ⟨hopened, hstate⟩ := h.stopped hthread
  refine ⟨hopened, fun fd => ?_, ?_, hstate, hthread⟩
  · rw [h.owns.in_turn.count_taken fd, hopened]
    simp
  · have := h.owns.opened
    rw [hopened, List.nil_perm] at this
    exact (List.append_eq_nil_iff.mp (List.append_eq_nil_iff.mp this).2).1

lemma step_start {s : Server} (h : s.joining = false) :
    s.step k .start = some (s.start k).2 := by
  rw [step, h, if_neg Bool.false_ne_true]

/-- **The descriptors of the server.**  In every state a run of the two threads reaches, each
descriptor was obtained and closed in turn, and the members name the clients that are accepted and
open, but for the one that `run` is about to register or to close.  `stop` always gets to the end,
where it leaves a settled server, and so does a `start` that fails; a server that is not stopped
refuses `start` and is left as it is. -/
theorem descriptors_in_turn {actions : List Action} {s : Server}
    (hrun : Machine.run (step k) {} actions = some s) :
    Use.InTurn s.world.log s.world.opened ∧ s.client_fd_.Nodup ∧
      s.world.accepted.Perm (s.client_fd_ ++ s.inHand) ∧
      (∀ s', s.step k .stop = some s' → s'.joining = true) ∧
      (∀ s', s.step k .join = some s' → s'.Settled ∧ ∃ s'', s'.step k .start = some s'') ∧
      (s.state_ = .kStopped → (s.start k).1 = false → (s.start k).2.Settled) ∧
      (s.state_ ≠ .kStopped → s.start k = (false, s)) := by
  have h : s.Lifecycle := Machine.run_invariant_of_step step_lifecycle lifecycle_new hrun
  refine ⟨h.owns.in_turn, ?_, h.owns.accepted, ?_, ?_, ?_, ?_⟩
  · exact (List.nodup_append.mp (List.nodup_append.mp h.owns.nodup).2.1).1
  · intro s' hstep
    rw [step, Option.ite_none_left_eq_some] at hstep
    obtain ⟨-, heq⟩ := hstep
    cases heq
    have hstarting : s.state_ ≠ .kStarting := by
      intro hstate
      by_cases hthread : s.thread_ = none
      · have := (h.stopped hthread).2
        rw [hstate] at this
        cases this
      · have := h.started hthread
        rw [hstate] at this
        simp at this
    rw [Server.stopBegin, if_neg hstarting]
    split <;> rfl
  · intro s' hstep
    have hlife := step_lifecycle s .join s' h hstep
    rw [step, Option.ite_none_right_eq_some] at hstep
    obtain ⟨⟨-, hended⟩, heq⟩ := hstep
    cases heq
    refine ⟨hlife.settled ?_, _, step_start rfl⟩
    exact congrArg (fun m => m.2.1)
      (closeStartupDescriptors_mode (k := k) { s with thread_ := none })
  · intro hstopped hfailed
    obtain ⟨hlife, hthread⟩ := h.start (k := k)
    exact hlife.settled (hthread hstopped hfailed)
  · intro hstate
    rw [Server.start, if_pos hstate]

lemma le_foldr_max {fds : List ℤ} {fd : ℤ} (h : fd ∈ fds) : fd ≤ fds.foldr max 2 := by
  induction fds with
  | nil => cases h
  | cons a fds ih =>
      rcases List.mem_cons.mp h with rfl | h
      · exact le_max_left _ _
      · exact (ih h).trans (le_max_right _ _)

/-- A system in which every call succeeds: it hands out the number behind the open ones and reports
every descriptor that is watched, the last one first. -/
def obliging : Surroundings where
  descriptor opened _ := opened.foldr max 2 + 1
  fresh opened _ _ hmem := by
    have := le_foldr_max hmem
    omega
  succeeds _ _ := true
  port _ := 9000
  epoll_wait interest _ := .events (interest.dedup.reverse.map fun fd => ⟨fd, EPOLLIN⟩)
  reported := by
    rintro interest _ batch heq
    cases heq
    simp [List.nodup_dedup, Function.comp_def]
  handleLogRequest _ _ := .kept

/-- A client is accepted and registered, then the thread sees the eventfd and leaves. -/
def oneClient : List Action := [.start, .run, .run, .run, .stop, .run, .run]

/-- A client comes and is still there when the server stops. -/
theorem descriptors_in_turn_one_client : ∃ s s', Machine.run (step obliging)
    {} oneClient = some s ∧
    s.step obliging .join = some s' ∧ Use.InTurn s.world.log s.world.opened ∧
    s.world.opened = [3, 4] ∧ s'.Settled ∧
      s'.world.log = [.taken 3, .taken 4, .taken 5, .taken 6, .released 6, .released 5, .released 4,
        .released 3] := by
  have hrun : ((Machine.run (step obliging) {} oneClient).bind fun s =>
      (s.step obliging .join).map fun s' => (s.world.opened, s'.world.log)) =
        some ([3, 4], [.taken 3, .taken 4, .taken 5, .taken 6,
          .released 6, .released 5, .released 4, .released 3]) := by
    decide +kernel
  obtain ⟨s, hrun, hjoin⟩ := Option.bind_eq_some_iff.mp hrun
  obtain ⟨s', hjoin, heq⟩ := Option.map_eq_some_iff.mp hjoin
  obtain ⟨hopened, hlog⟩ := Prod.mk.inj heq
  obtain ⟨hturn, -, -, -, hstop, -⟩ := descriptors_in_turn hrun
  exact ⟨s, s', hrun, hjoin, hturn, hopened, (hstop s' hjoin).1, hlog⟩

end Server

end Tracebox
