import Tracebox.Lib.Protocol
import Tracebox.Net.TcpSocket

/-!
# `TcpClient`

A process has any number of clients, and different threads use them at the same time.  The calls to
the system of all of them come in any order; what a client does is cut at these calls.

* `TcpClient.call`, `TcpClient.resume` — a method up to its next call to the system,
  `Process.step` — the clients side by side.
* `Stage`, `Life` — the protocol of a descriptor: who has obtained it, and how far `connect` is.
* `descriptors_conform` — **in every interleaving each descriptor follows its protocol**: it is
  used and closed by the client that obtained it, and carries data only after both timeouts were set
  and the connection was made.
* `descriptors_balance` — **what a client has opened is what it has closed and what it holds**; a
  client that is disconnected has closed everything.
-/

namespace Tracebox

open Bytes

/-! ## Methods and system calls -/

/-- A call of a method. -/
inductive Method where
  | connect (ip_addr : Bytes) (port : UInt32)
  | disconnect
  | setTimeout (sec usec : ℤ)
  | sendData (data : Bytes)
  | readData
  /-- the destructor -/
  | destroy
  deriving DecidableEq, Repr

/-- How a method returns. -/
inductive Returned where
  | connect (ok : Bool)
  | disconnect
  | setTimeout
  | sendData (ok : Bool)
  | readData (result : Bytes)
  | destroy
  deriving DecidableEq, Repr

/-- `sockaddr_in`, in the byte order of the host. -/
structure Destination where
  sin_addr : UInt32
  sin_port : UInt16
  deriving DecidableEq, Repr

/-- The options that a client sets. -/
inductive SocketOption where
  | SO_SNDTIMEO
  | SO_RCVTIMEO
  deriving DecidableEq, Repr

/-- What a call of `::connect` came to. -/
inductive Attempt where
  | connected
  /-- `-1` with `EINTR` -/
  | interrupted
  | failed
  deriving DecidableEq, Repr

/-- A call to the system, with what it came to. -/
inductive Syscall where
  /-- the descriptor, or a negative number -/
  | socket (fd : ℤ)
  | setsockopt (fd : ℤ) (option : SocketOption) (sec usec : ℤ) (ok : Bool)
  | connect (fd : ℤ) (destination : Destination) (attempt : Attempt)
  | send (fd : ℤ) (call : SendCall)
  | recv (fd : ℤ) (call : RecvCall)
  /-- the descriptor is given back, whatever `close` returns -/
  | close (fd : ℤ)
  deriving DecidableEq

/-- What the system answers. -/
inductive Answer where
  | socket (fd : ℤ)
  | setsockopt (ok : Bool)
  | connect (attempt : Attempt)
  | send (call : SendCall)
  | recv (call : RecvCall)
  | close
  deriving DecidableEq

/-- The descriptor a call is about: the one it gives, or the one it is given. -/
def Syscall.fd : Syscall → ℤ
  | socket fd => fd
  | setsockopt fd _ _ _ _ => fd
  | connect fd _ _ => fd
  | send fd _ => fd
  | recv fd _ => fd
  | close fd => fd

/-! ## One client -/

/-- What comes after `disconnect`. -/
inductive Rest where
  | disconnect
  | destroy
  | connect (ip_addr : Bytes) (port : UInt32)
  deriving DecidableEq, Repr

/-- Where a client is: in no method, or before a call to the system. -/
inductive Point where
  | idle
  /-- after the destructor -/
  | gone
  /-- in `disconnect`, which has taken the descriptor out of `fd_` -/
  | closing (fd : ℤ) (rest : Rest)
  | creating (ip_addr : Bytes) (port : UInt32)
  /-- the first call of `setClientTimeouts` -/
  | sendTimeout (fd : ℤ) (destination : Destination)
  /-- the second one -/
  | recvTimeout (fd : ℤ) (destination : Destination)
  | connecting (fd : ℤ) (destination : Destination)
  /-- in `~ScopedFd`, because `inet_aton` does not know the address -/
  | unaddressed (fd : ℤ)
  /-- in `~ScopedFd`, because a call has failed -/
  | failing (fd : ℤ)
  /-- the first call of `setTimeout` -/
  | settingSend (sec usec : ℤ)
  /-- the second one -/
  | settingRecv (sec usec : ℤ)
  /-- in the loop of `sendDataWith`, with what is left of the buffer -/
  | sending (left : Bytes)
  /-- in a loop of `readDataWith` -/
  | reading (st : ReadState)
  deriving DecidableEq

/-- `TcpClient`: its descriptor, and where it is in its methods. -/
structure TcpClient where
  fd_ : ℤ := -1
  point : Point := .idle
  deriving DecidableEq

namespace TcpClient

/-- `is_connected`. -/
def is_connected (c : TcpClient) : Bool := decide (0 ≤ c.fd_)

/-- What a method does after its `disconnect`. -/
def proceed (c : TcpClient) : Rest → TcpClient × Option Returned
  | .disconnect => ({ c with point := .idle }, some .disconnect)
  | .destroy => ({ c with point := .gone }, some .destroy)
  | .connect ip_addr port =>
      if port = 0 ∨ 65535 < port then ({ c with point := .idle }, some (.connect false))
      else ({ c with point := .creating ip_addr port }, none)

/-- `disconnect`: the descriptor is forgotten before it is closed; then the method goes on. -/
def disconnect (c : TcpClient) (rest : Rest) : TcpClient × Option Returned :=
  if 0 ≤ c.fd_ then (⟨-1, .closing c.fd_ rest⟩, none) else proceed { c with fd_ := -1 } rest

/-- `sendData` up to its first `send`: a payload without a frame is refused. -/
def sendData (c : TcpClient) (data : Bytes) : TcpClient × Option Returned :=
  if UINT32_MAX < data.length then (c, some (.sendData false))
  else ({ c with point := .sending (frame data) }, none)

/-- A method up to its first call to the system. -/
def enter (c : TcpClient) : Method → TcpClient × Option Returned
  | .connect ip_addr port => c.disconnect (.connect ip_addr port)
  | .disconnect => c.disconnect .disconnect
  | .destroy => c.disconnect .destroy
  | .setTimeout sec usec => ({ c with point := .settingSend sec usec }, none)
  | .sendData data => c.sendData data
  | .readData => ({ c with point := .reading .start }, none)

/-- A method is called.  A client is used by one thread at a time. -/
def call (c : TcpClient) (m : Method) : Option (TcpClient × Option Returned) :=
  if c.point = .idle then some (c.enter m) else none

/-- One iteration of the loop of `sendDataWith`. -/
def sent (c : TcpClient) (left : Bytes) : SendCall → TcpClient × Option Returned
  | .sent n =>
      if n = 0 then ({ c with point := .idle }, some (.sendData false))
      else if left.length ≤ n then ({ c with point := .idle }, some (.sendData true))
      else ({ c with point := .sending (left.drop n) }, none)
  | .interrupted => (c, none)
  | .failed => ({ c with point := .idle }, some (.sendData false))

/-- One iteration of a loop of `readDataWith`. -/
def received (c : TcpClient) : ReadStep → TcpClient × Option Returned
  | .reading st => ({ c with point := .reading st }, none)
  | .returned result => ({ c with point := .idle }, some (.readData result))

/-- The result of the loop of `sendDataWith`, call by call. -/
def sendResult (fd : ℤ) (left : Bytes) : List SendCall → Option Bool
  | [] => none
  | call :: script => match (⟨fd, .sending left⟩ : TcpClient).sent left call with
    | (_, some (.sendData ok)) => some ok
    | (⟨_, .sending left⟩, none) => sendResult fd left script
    | _ => none

/-- **Call by call, a client sends as `sendDataWith` does.** -/
lemma sendResult_eq_sendLoop (fd : ℤ) (script : List SendCall) {left : Bytes}
    (hne : left ≠ []) : sendResult fd left script = (sendLoop script left).map Prod.fst := by
  induction script generalizing left with
  | nil =>
      cases left with
      | nil => exact absurd rfl hne
      | cons b left => rfl
  | cons call script ih =>
      obtain ⟨b, rest, rfl⟩ := List.exists_cons_of_ne_nil hne
      cases call with
      | sent n =>
          by_cases hn : n = 0
          · simp [sendResult, sent, sendLoop, hn]
          · by_cases hall : (b :: rest).length ≤ n
            · have hdone : sendLoop script ((b :: rest).drop n) = some (true, []) := by
                rw [List.drop_eq_nil_of_le hall, sendLoop]
              simp only [sendLoop, if_neg hn, hdone]
              rw [sendResult, sent, if_neg hn, if_pos hall]
              rfl
            · have hleft : (b :: rest).drop n ≠ [] := fun h =>
                hall (List.drop_eq_nil_iff.mp h)
              simp only [sendLoop, if_neg hn, Option.map_map]
              rw [sendResult, sent, if_neg hn, if_neg hall]
              exact ih hleft
      | interrupted =>
          simp only [sendLoop]
          exact ih hne
      | failed => rfl

variable (inet_aton : Bytes → Option UInt32)

/-- `connect` after `socket`. -/
def created (c : TcpClient) (ip_addr : Bytes) (port : UInt32) (fd : ℤ) :
    TcpClient × Option Returned :=
  if fd < 0 then ({ c with point := .idle }, some (.connect false))
  else match inet_aton (cString ip_addr) with
    | none => ({ c with point := .unaddressed fd }, none)
    | some sin_addr => ({ c with point := .sendTimeout fd ⟨sin_addr, port.toUInt16⟩ }, none)

/-- The system answers the call the client is at: the client goes on to its next one. -/
def resume (c : TcpClient) (a : Answer) : Option (Syscall × TcpClient × Option Returned) :=
  match c.point, a with
  | .closing fd rest, .close => some (.close fd, c.proceed rest)
  | .creating ip_addr port, .socket fd => some (.socket fd, c.created inet_aton ip_addr port fd)
  | .sendTimeout fd d, .setsockopt ok => some (.setsockopt fd .SO_SNDTIMEO 2 0 ok,
      { c with point := if ok then .recvTimeout fd d else .failing fd }, none)
  | .recvTimeout fd d, .setsockopt ok => some (.setsockopt fd .SO_RCVTIMEO 2 0 ok,
      { c with point := if ok then .connecting fd d else .failing fd }, none)
  | .connecting fd d, .connect .interrupted => some (.connect fd d .interrupted, c, none)
  | .connecting fd d, .connect .failed =>
      some (.connect fd d .failed, { c with point := .failing fd }, none)
  | .connecting fd d, .connect .connected =>
      some (.connect fd d .connected, ⟨fd, .idle⟩, some (.connect true))
  | .unaddressed fd, .close => some (.close fd, { c with point := .idle }, some (.connect false))
  | .failing fd, .close => some (.close fd, { c with point := .idle }, some (.connect false))
  | .settingSend sec usec, .setsockopt ok => some (.setsockopt c.fd_ .SO_SNDTIMEO sec usec ok,
      { c with point := .settingRecv sec usec }, none)
  | .settingRecv sec usec, .setsockopt ok => some (.setsockopt c.fd_ .SO_RCVTIMEO sec usec ok,
      { c with point := .idle }, some .setTimeout)
  | .sending left, .send call => some (.send c.fd_ call, c.sent left call)
  | .reading st, .recv call => some (.recv c.fd_ call, c.received (st.recv call))
  | _, _ => none

end TcpClient

/-! ## The process -/

/-- The clients of a process, their calls to the system in the order they are made, and what their
methods have returned. -/
structure Process where
  clients : List TcpClient := []
  log : List (ℕ × Syscall) := []
  returns : List (ℕ × Returned) := []
  deriving DecidableEq

namespace Process

/-- What happens in a process: a client is made, is called, or gets a result from the system. -/
inductive Event where
  /-- a client is constructed -/
  | create
  | call (i : ℕ) (m : Method)
  | answer (i : ℕ) (a : Answer)

/-- One client has gone on. -/
def update (p : Process) (i : ℕ) (log : List (ℕ × Syscall))
    (r : TcpClient × Option Returned) : Process where
  clients := p.clients.set i r.1
  log := p.log ++ log
  returns := p.returns ++ r.2.toList.map fun x => (i, x)

/-- One step; none when the event is not possible. -/
def step (inet_aton : Bytes → Option UInt32) (p : Process) : Event → Option Process
  | .create => some { p with clients := p.clients ++ [{}] }
  | .call i m => p.clients[i]?.bind fun c => (c.call m).map fun r => p.update i [] r
  | .answer i a => p.clients[i]?.bind fun c =>
      (c.resume inet_aton a).map fun r => p.update i [(i, r.1)] r.2

/-- The descriptor a call is about; a negative number is none. -/
def about (e : ℕ × Syscall) : Option ℤ := if 0 ≤ e.2.fd then some e.2.fd else none

end Process

/-! ## The protocol of a descriptor -/

/-- How far `connect` has come with a descriptor. -/
inductive Stage where
  | created
  | sendTimeout
  | bothTimeouts
  | connected
  | failed
  deriving DecidableEq, Repr

/-- The stage after a call to the system, or none when the descriptor is closed.  No result when the
call is out of place. -/
def Stage.call : Stage → Syscall → Option (Option Stage)
  | .created, .setsockopt _ option sec usec ok =>
      if option = .SO_SNDTIMEO ∧ sec = 2 ∧ usec = 0 then
        some (some (if ok then .sendTimeout else .failed))
      else none
  | .sendTimeout, .setsockopt _ option sec usec ok =>
      if option = .SO_RCVTIMEO ∧ sec = 2 ∧ usec = 0 then
        some (some (if ok then .bothTimeouts else .failed))
      else none
  | .bothTimeouts, .connect _ _ .interrupted => some (some .bothTimeouts)
  | .bothTimeouts, .connect _ _ .failed => some (some .failed)
  | .bothTimeouts, .connect _ _ .connected => some (some .connected)
  | .connected, .setsockopt _ _ _ _ _ => some (some .connected)
  | .connected, .send _ _ => some (some .connected)
  | .connected, .recv _ _ => some (some .connected)
  | .created, .close _ => some none
  | .connected, .close _ => some none
  | .failed, .close _ => some none
  | _, _ => none

/-- The client that has obtained the descriptor and the stage it is in; none for a closed one. -/
abbrev Life := Option (ℕ × Stage)

/-- A descriptor is used and closed by the client that has obtained it. -/
def Life.step : Life → ℕ × Syscall → Option Life
  | none, (i, .socket _) => some (some (i, .created))
  | none, _ => none
  | some (i, st), (j, call) =>
      if i = j then (st.call call).map fun o => o.map fun st => (i, st) else none

namespace TcpClient

/-- The descriptor a client has to close, and its stage. -/
def held (c : TcpClient) : Option (ℤ × Stage) :=
  match c.point with
  | .gone => none
  | .closing fd _ => some (fd, .connected)
  | .creating _ _ => none
  | .sendTimeout fd _ => some (fd, .created)
  | .recvTimeout fd _ => some (fd, .sendTimeout)
  | .connecting fd _ => some (fd, .bothTimeouts)
  | .unaddressed fd => some (fd, .created)
  | .failing fd => some (fd, .failed)
  | .idle => if 0 ≤ c.fd_ then some (c.fd_, .connected) else none
  | .settingSend _ _ => if 0 ≤ c.fd_ then some (c.fd_, .connected) else none
  | .settingRecv _ _ => if 0 ≤ c.fd_ then some (c.fd_, .connected) else none
  | .sending _ => if 0 ≤ c.fd_ then some (c.fd_, .connected) else none
  | .reading _ => if 0 ≤ c.fd_ then some (c.fd_, .connected) else none

/-- The descriptor of `held` alone. -/
def holding (c : TcpClient) : Multiset ℤ := c.held.elim 0 fun x => {x.1}

lemma mem_holding_iff {c : TcpClient} {fd : ℤ} :
    fd ∈ c.holding ↔ ∃ st, c.held = some (fd, st) := by
  rw [holding]
  cases c.held with
  | none => simp
  | some x => simp [Prod.ext_iff, eq_comm]

/-- A client that is about to close or connect a descriptor has none in `fd_`. -/
def Tidy (c : TcpClient) : Prop :=
  match c.point with
  | .gone => c.fd_ < 0
  | .closing fd _ => c.fd_ < 0 ∧ 0 ≤ fd
  | .creating _ _ => c.fd_ < 0
  | .sendTimeout fd _ => c.fd_ < 0 ∧ 0 ≤ fd
  | .recvTimeout fd _ => c.fd_ < 0 ∧ 0 ≤ fd
  | .connecting fd _ => c.fd_ < 0 ∧ 0 ≤ fd
  | .unaddressed fd => c.fd_ < 0 ∧ 0 ≤ fd
  | .failing fd => c.fd_ < 0 ∧ 0 ≤ fd
  | _ => True

variable {inet_aton : Bytes → Option UInt32} {c c' : TcpClient} {m : Method} {a : Answer}
  {e : Syscall} {r : Option Returned}

/-- What a call to the system does to the descriptor of a client. -/
inductive Moves (c : TcpClient) (e : Syscall) (c' : TcpClient) : Prop where
  /-- no descriptor is concerned -/
  | quiet (hfd : e.fd < 0) (hheld : c'.held = c.held)
  | obtained (fd : ℤ) (hfd : 0 ≤ fd) (he : e = .socket fd) (hnone : c.held = none)
      (hheld : c'.held = some (fd, .created))
  | used (fd : ℤ) (st : Stage) (o : Option Stage) (hfd : 0 ≤ fd) (he : e.fd = fd)
      (hold : c.held = some (fd, st)) (hcall : st.call e = some o)
      (hheld : c'.held = o.map fun st => (fd, st))

lemma held_of_idle (h : c.point = .idle) :
    c.held = if 0 ≤ c.fd_ then some (c.fd_, .connected) else none := by
  simp only [held, h]

/-- What `disconnect` leaves is as tidy, and holds what the client held. -/
lemma disconnect_spec (c : TcpClient) (hidle : c.point = .idle) (rest : Rest) :
    (c.disconnect rest).1.Tidy ∧ (c.disconnect rest).1.held = c.held := by
  obtain ⟨fd_, point⟩ := c
  cases hidle
  by_cases hfd : 0 ≤ fd_
  · simp only [disconnect, hfd, if_true, Tidy, held]
    exact ⟨⟨by omega, trivial⟩, trivial⟩
  · cases rest with
    | disconnect => simp [disconnect, hfd, proceed, Tidy, held]
    | destroy => simp [disconnect, hfd, proceed, Tidy, held]
    | connect ip_addr port =>
        simp only [disconnect, hfd, if_false, proceed]
        split_ifs <;> simp [Tidy, held, hfd]

/-- **A method up to its first call to the system** holds what the client held. -/
lemma enter_spec (hidle : c.point = .idle) (m : Method) :
    (c.enter m).1.Tidy ∧ (c.enter m).1.held = c.held := by
  cases m with
  | connect ip_addr port => exact c.disconnect_spec hidle _
  | disconnect => exact c.disconnect_spec hidle _
  | destroy => exact c.disconnect_spec hidle _
  | setTimeout sec usec => exact ⟨trivial, (held_of_idle hidle).symm⟩
  | sendData data =>
      simp only [enter, sendData]
      split_ifs
      · exact ⟨by simp only [Tidy, hidle], rfl⟩
      · exact ⟨trivial, (held_of_idle hidle).symm⟩
  | readData => exact ⟨trivial, (held_of_idle hidle).symm⟩

/-- What a client holds at a point where it may use `fd_`. -/
lemma held_connected {point : Point} (hheld : (⟨c.fd_, point⟩ : TcpClient).held =
    if 0 ≤ c.fd_ then some (c.fd_, .connected) else none) {e : Syscall} (he : e.fd = c.fd_)
    (hcall : Stage.connected.call e = some (some .connected)) (hsame : c'.held = c.held)
    (hc : c.point = point) : Moves c e c' := by
  have hold : c.held = if 0 ≤ c.fd_ then some (c.fd_, .connected) else none := by
    rw [← hheld, ← hc]
  by_cases hfd : 0 ≤ c.fd_
  · rw [if_pos hfd] at hold
    exact .used c.fd_ .connected _ hfd he hold hcall (by rw [hsame, hold]; rfl)
  · exact .quiet (by omega) hsame

/-- After `disconnect` nothing is held. -/
lemma proceed_spec (hfd : c.fd_ < 0) (rest : Rest) :
    (c.proceed rest).1.Tidy ∧ (c.proceed rest).1.held = none := by
  have hno : ¬ 0 ≤ c.fd_ := by omega
  cases rest with
  | disconnect => simp [proceed, Tidy, held, hno]
  | destroy => simp [proceed, Tidy, held, hfd]
  | connect ip_addr port =>
      simp only [proceed]
      split_ifs <;> simp [Tidy, held, hno, hfd]

/-- **A method from one call to the system to the next.** -/
lemma resume_spec (ht : c.Tidy) (h : c.resume inet_aton a = some (e, c', r)) :
    c'.Tidy ∧ Moves c e c' := by
  obtain ⟨fd_, point⟩ := c
  cases point with
  | idle => cases a <;> cases h
  | gone => cases a <;> cases h
  | closing fd rest =>
      cases a with
      | close =>
          obtain ⟨hfd, hnonneg⟩ := ht
          have hspec := proceed_spec (c := ⟨fd_, .closing fd rest⟩) hfd rest
          simp only [resume, Option.some.injEq, Prod.mk.injEq] at h
          obtain ⟨rfl, hc⟩ := h
          rw [hc] at hspec
          exact ⟨hspec.1, .used fd .connected none hnonneg rfl rfl rfl hspec.2⟩
      | _ => cases h
  | creating ip_addr port =>
      cases a with
      | socket fd =>
          have hfd : fd_ < 0 := ht
          simp only [resume, created, Option.some.injEq, Prod.mk.injEq] at h
          obtain ⟨rfl, hc⟩ := h
          split_ifs at hc with hneg
          · cases hc
            exact ⟨trivial, .quiet hneg (if_neg (not_le.mpr hfd))⟩
          · split at hc
            · cases hc
              exact ⟨⟨hfd, by omega⟩, .obtained fd (by omega) rfl rfl rfl⟩
            · cases hc
              exact ⟨⟨hfd, by omega⟩, .obtained fd (by omega) rfl rfl rfl⟩
      | _ => cases h
  | sendTimeout fd d =>
      cases a with
      | setsockopt ok =>
          obtain ⟨hfd, hnonneg⟩ := ht
          cases h
          cases ok
          · exact ⟨⟨hfd, hnonneg⟩, .used fd .created _ hnonneg rfl rfl rfl rfl⟩
          · exact ⟨⟨hfd, hnonneg⟩, .used fd .created _ hnonneg rfl rfl rfl rfl⟩
      | _ => cases h
  | recvTimeout fd d =>
      cases a with
      | setsockopt ok =>
          obtain ⟨hfd, hnonneg⟩ := ht
          cases h
          cases ok
          · exact ⟨⟨hfd, hnonneg⟩, .used fd .sendTimeout _ hnonneg rfl rfl rfl rfl⟩
          · exact ⟨⟨hfd, hnonneg⟩, .used fd .sendTimeout _ hnonneg rfl rfl rfl rfl⟩
      | _ => cases h
  | connecting fd d =>
      cases a with
      | connect attempt =>
          obtain ⟨hfd, hnonneg⟩ := ht
          cases attempt with
          | connected =>
              cases h
              exact ⟨trivial, .used fd .bothTimeouts _ hnonneg rfl rfl rfl (if_pos hnonneg)⟩
          | interrupted =>
              cases h
              exact ⟨⟨hfd, hnonneg⟩, .used fd .bothTimeouts _ hnonneg rfl rfl rfl rfl⟩
          | failed =>
              cases h
              exact ⟨⟨hfd, hnonneg⟩, .used fd .bothTimeouts _ hnonneg rfl rfl rfl rfl⟩
      | _ => cases h
  | unaddressed fd =>
      cases a with
      | close =>
          obtain ⟨hfd, hnonneg⟩ := ht
          cases h
          exact ⟨trivial, .used fd .created none hnonneg rfl rfl rfl (if_neg (not_le.mpr hfd))⟩
      | _ => cases h
  | failing fd =>
      cases a with
      | close =>
          obtain ⟨hfd, hnonneg⟩ := ht
          cases h
          exact ⟨trivial, .used fd .failed none hnonneg rfl rfl rfl (if_neg (not_le.mpr hfd))⟩
      | _ => cases h
  | settingSend sec usec =>
      cases a with
      | setsockopt ok =>
          cases h
          exact ⟨trivial, held_connected rfl rfl rfl rfl rfl⟩
      | _ => cases h
  | settingRecv sec usec =>
      cases a with
      | setsockopt ok =>
          cases h
          exact ⟨trivial, held_connected rfl rfl rfl rfl rfl⟩
      | _ => cases h
  | sending left =>
      cases a with
      | send call =>
          simp only [resume, Option.some.injEq, Prod.mk.injEq] at h
          obtain ⟨rfl, hc⟩ := h
          have hspec : c'.Tidy ∧ c'.held = (⟨fd_, .sending left⟩ : TcpClient).held := by
            cases call with
            | sent n =>
                simp only [sent] at hc
                split_ifs at hc
                · cases hc
                  exact ⟨trivial, rfl⟩
                · cases hc
                  exact ⟨trivial, rfl⟩
                · cases hc
                  exact ⟨trivial, rfl⟩
            | interrupted =>
                cases hc
                exact ⟨trivial, rfl⟩
            | failed =>
                cases hc
                exact ⟨trivial, rfl⟩
          exact ⟨hspec.1, held_connected rfl rfl rfl hspec.2 rfl⟩
      | _ => cases h
  | reading st =>
      cases a with
      | recv call =>
          simp only [resume, Option.some.injEq, Prod.mk.injEq] at h
          obtain ⟨rfl, hc⟩ := h
          have hspec : c'.Tidy ∧ c'.held = (⟨fd_, .reading st⟩ : TcpClient).held := by
            cases hstep : st.recv call with
            | reading st' =>
                rw [hstep] at hc
                cases hc
                exact ⟨trivial, rfl⟩
            | returned result =>
                rw [hstep] at hc
                cases hc
                exact ⟨trivial, rfl⟩
          exact ⟨hspec.1, held_connected rfl rfl rfl hspec.2 rfl⟩
      | _ => cases h

/-- Only an answer to `socket` is logged as one. -/
lemma resume_socket {fd : ℤ} (h : c.resume inet_aton a = some (.socket fd, c', r)) :
    a = .socket fd := by
  obtain ⟨fd_, point⟩ := c
  cases point with
  | creating ip_addr port =>
      cases a with
      | socket fd' =>
          simp only [resume, Option.some.injEq, Prod.mk.injEq, Syscall.socket.injEq] at h
          rw [h.1]
      | _ => cases h
  | connecting fd' d =>
      cases a with
      | connect attempt => cases attempt <;> cases h
      | _ => cases h
  | _ => cases a <;> cases h

end TcpClient

/-! ## All clients -/

namespace Process

/-- A call that gives a descriptor. -/
def obtains (e : ℕ × Syscall) : Bool :=
  match e.2 with
  | .socket _ => true
  | _ => false

/-- A call that closes a descriptor. -/
def closes (e : ℕ × Syscall) : Bool :=
  match e.2 with
  | .close _ => true
  | _ => false

/-- What the system promises: a descriptor that it hands out is not open, and calls on a number that
is none fail. -/
def Promised (p : Process) : Event → Prop
  | .answer _ (.socket fd) => 0 ≤ fd →
      (Protocol.history about p.log fd).countP obtains =
        (Protocol.history about p.log fd).countP closes
  | .answer i (.send call) => ∀ c ∈ p.clients[i]?, c.fd_ < 0 → call = .failed
  | .answer i (.recv call) => ∀ c ∈ p.clients[i]?, c.fd_ < 0 → call = .failed
  | _ => True

instance (p : Process) (e : Event) : Decidable (p.Promised e) :=
  match e with
  | .answer _ (.socket _) => inferInstanceAs (Decidable (_ → _))
  | .answer _ (.send _) => inferInstanceAs (Decidable (∀ c ∈ _, _))
  | .answer _ (.recv _) => inferInstanceAs (Decidable (∀ c ∈ _, _))
  | .answer _ (.setsockopt _) | .answer _ (.connect _) | .answer _ .close => isTrue trivial
  | .create | .call _ _ => isTrue trivial

/-- The descriptors are where the clients have them. -/
structure Tended (p : Process) (lives : ℤ → Life) : Prop where
  conforms : Protocol.Conforms Life.step none about p.log lives
  tidy : ∀ c ∈ p.clients, c.Tidy
  holders : ∀ fd i st, lives fd = some (i, st) ↔
    ∃ c, p.clients[i]? = some c ∧ c.held = some (fd, st)

variable {inet_aton : Bytes → Option UInt32} {p p' : Process} {lives : ℤ → Life} {i : ℕ}
  {c c' : TcpClient} {fd : ℤ}

/-- What a descriptor counts for, when only the clients selected by `who` are counted. -/
def worth (who : ℕ → Bool) (life : Life) : ℕ := life.elim 0 fun x => (who x.1).toNat

/-- **Conservation.**  A client that holds the descriptor has obtained it once more than it has
closed it, any other client as often. -/
lemma balance_life (h : Protocol.Conforms Life.step none about p.log lives) (who : ℕ → Bool)
    (fd : ℤ) :
    (Protocol.history about p.log fd).countP (fun e => who e.1 && obtains e) =
      worth who (lives fd) +
        (Protocol.history about p.log fd).countP (fun e => who e.1 && closes e) := by
  have hstep : ∀ (s : Life) e s', Life.step s e = some s' →
      worth who s + (who e.1 && obtains e).toNat = worth who s' + (who e.1 && closes e).toNat := by
    rintro s ⟨j, call⟩ s' hs
    cases s with
    | none =>
        cases call with
        | socket fd =>
            cases hs
            simp [worth, obtains, closes]
        | _ => cases hs
    | some x =>
        obtain ⟨k, st⟩ := x
        simp only [Life.step] at hs
        split_ifs at hs with hk
        subst hk
        obtain ⟨o, ho, rfl⟩ := Option.map_eq_some_iff.mp hs
        cases call with
        | close fd => cases st <;> cases ho <;> simp [worth, obtains, closes]
        | setsockopt fd option sec usec ok =>
            cases st <;> simp only [Stage.call] at ho <;> (try split_ifs at ho) <;> cases ho <;>
              simp [worth, obtains, closes]
        | connect fd d attempt =>
            cases st <;> cases attempt <;> cases ho <;> simp [worth, obtains, closes]
        | socket fd => cases st <;> cases ho
        | send fd call =>
            cases st <;> cases ho
            simp [worth, obtains, closes]
        | recv fd call =>
            cases st <;> cases ho
            simp [worth, obtains, closes]
  have h := h.balance hstep fd
  simpa [worth] using h

/-- A client that holds what it held. -/
lemma Tended.update_same (h : p.Tended lives) (hi : p.clients[i]? = some c)
    {r : TcpClient × Option Returned} (ht : r.1.Tidy) (hsame : r.1.held = c.held)
    {log : List (ℕ × Syscall)}
    (hlog : Protocol.Conforms Life.step none about (p.log ++ log) lives) :
    (p.update i log r).Tended lives where
  conforms := hlog
  tidy d hd := by
    rcases List.mem_or_eq_of_mem_set hd with hd | rfl
    · exact h.tidy d hd
    · exact ht
  holders fd j st := by
    rw [h.holders, update]
    obtain ⟨hlt, hget⟩ := List.getElem?_eq_some_iff.mp hi
    by_cases hj : i = j
    · subst hj
      simp [hlt, hget, hsame]
    · simp [List.getElem?_set_ne hj]

/-- The life of one descriptor goes on. -/
lemma Tended.update_life (h : p.Tended lives) (hi : p.clients[i]? = some c)
    {r : TcpClient × Option Returned} (ht : r.1.Tidy) {e : Syscall} (hfd : 0 ≤ fd)
    (he : e.fd = fd) {o : Option Stage} (hnew : r.1.held = o.map fun st => (fd, st))
    (hold : ∀ x, c.held = some x → x.1 = fd)
    (hother : ∀ j st, lives fd = some (j, st) → j = i)
    (hstep : Life.step (lives fd) (i, e) = some (o.map fun st => (i, st))) :
    (p.update i [(i, e)] r).Tended
      (Function.update lives fd (o.map fun st => (i, st))) where
  conforms := h.conforms.push (by simp only [about, he, if_pos hfd]) hstep
  tidy d hd := by
    rcases List.mem_or_eq_of_mem_set hd with hd | rfl
    · exact h.tidy d hd
    · exact ht
  holders fd' j st := by
    obtain ⟨hlt, -⟩ := List.getElem?_eq_some_iff.mp hi
    by_cases hfd' : fd' = fd
    · subst hfd'
      rw [Function.update_self, update]
      by_cases hj : i = j
      · subst hj
        cases o <;> simp [hlt, hnew]
      · constructor
        · intro heq
          cases o with
          | none => cases heq
          | some st' =>
              cases heq
              exact absurd rfl hj
        · rintro ⟨d, hd, hheld⟩
          rw [List.getElem?_set_ne hj] at hd
          exact absurd (hother j st ((h.holders fd' j st).mpr ⟨d, hd, hheld⟩)).symm hj
    · rw [Function.update_of_ne hfd', h.holders, update]
      by_cases hj : i = j
      · subst hj
        constructor
        · rintro ⟨d, hd, hheld⟩
          rw [hi] at hd
          cases hd
          exact absurd (hold _ hheld) hfd'
        · rintro ⟨d, hd, hheld⟩
          simp only [List.getElem?_set_self hlt, Option.some.injEq] at hd
          subst hd
          rw [hnew] at hheld
          cases o with
          | none => cases hheld
          | some st' =>
              simp only [Option.map_some, Option.some.injEq, Prod.mk.injEq] at hheld
              exact absurd hheld.1.symm hfd'
      · simp [List.getElem?_set_ne hj]

/-- **One step of any client.** -/
lemma Tended.step (h : p.Tended lives) {e : Event} (hp : p.Promised e)
    (hstep : p.step inet_aton e = some p') : ∃ lives', p'.Tended lives' := by
  cases e with
  | create =>
      cases hstep
      refine ⟨lives, ⟨h.conforms, fun d hd => ?_, fun fd i st => ?_⟩⟩
      · rcases List.mem_append.mp hd with hd | hd
        · exact h.tidy d hd
        · rw [List.mem_singleton.mp hd]
          trivial
      · rw [h.holders]
        refine exists_congr fun d => and_congr_left fun hheld => ?_
        by_cases hlt : i < p.clients.length
        · rw [List.getElem?_append_left hlt]
        · rw [List.getElem?_append_right (not_lt.mp hlt), List.getElem?_eq_none (not_lt.mp hlt)]
          refine ⟨nofun, fun hd => ?_⟩
          obtain rfl := List.mem_singleton.mp (List.mem_of_getElem? hd)
          cases hheld
  | call i m =>
      obtain ⟨c, hi, hcall⟩ := Option.bind_eq_some_iff.mp hstep
      obtain ⟨r, hr, rfl⟩ := Option.map_eq_some_iff.mp hcall
      rw [TcpClient.call] at hr
      split_ifs at hr with hidle
      cases hr
      obtain ⟨ht, hsame⟩ := TcpClient.enter_spec hidle m
      exact ⟨lives, h.update_same hi ht hsame (by rw [List.append_nil]; exact h.conforms)⟩
  | answer i a =>
      obtain ⟨c, hi, hanswer⟩ := Option.bind_eq_some_iff.mp hstep
      obtain ⟨⟨e, r⟩, hr, rfl⟩ := Option.map_eq_some_iff.mp hanswer
      obtain ⟨ht, hmoves⟩ := TcpClient.resume_spec (h.tidy c (List.mem_of_getElem? hi)) hr
      cases hmoves with
      | quiet hfd hsame =>
          exact ⟨lives, h.update_same hi ht hsame
            (h.conforms.skip (by simp only [about]; exact if_neg (not_le.mpr hfd)))⟩
      | obtained fd hfd he hnone hheld =>
          -- the system does not hand out an open descriptor
          have hanswer : a = .socket fd := by
            subst he
            exact TcpClient.resume_socket hr
          subst hanswer
          have hclosed : lives fd = none := by
            have hbalance := balance_life h.conforms (fun _ => true) fd
            simp only [Bool.true_and] at hbalance
            rw [hp hfd] at hbalance
            cases hlive : lives fd with
            | none => rfl
            | some x =>
                rw [hlive] at hbalance
                simp [worth] at hbalance
          subst he
          exact ⟨_, h.update_life hi ht (o := some .created) hfd rfl hheld
            (fun x hx => by rw [hnone] at hx; cases hx)
            (fun j st hj => by rw [hclosed] at hj; cases hj) (by rw [hclosed]; rfl)⟩
      | used fd st o hfd he hold hcall hheld =>
          have hlive : lives fd = some (i, st) := (h.holders fd i st).mpr ⟨c, hi, hold⟩
          refine ⟨_, h.update_life hi ht (o := o) hfd he hheld
            (fun x hx => by rw [hold] at hx; cases hx; rfl)
            (fun j st' hj => by rw [hlive] at hj; cases hj; rfl) ?_⟩
          rw [hlive, Life.step, if_pos rfl, hcall, Option.map_some]

lemma tended_of_run {events : List Event}
    (hpromised : Machine.Throughout (step inet_aton) Promised {} events)
    (hrun : Machine.run (step inet_aton) {} events = some p) : ∃ lives, p.Tended lives := by
  have hstart : ∃ lives, ({} : Process).Tended lives :=
    ⟨fun _ => none, .nil _ _ _, by simp, by simp⟩
  have hstep : ∀ (p : Process) e p', (∃ lives, p.Tended lives) → p.Promised e →
      p.step inet_aton e = some p' → ∃ lives, p'.Tended lives :=
    fun p e p' ⟨lives, h⟩ hp hstep => h.step hp hstep
  exact Machine.run_invariant hstep hstart hpromised hrun

/-- **In every interleaving each descriptor follows its protocol.**  Whoever obtains a descriptor is
the only one to use it and the one to close it, and it carries data only after both timeouts of two
seconds were set and the connection was made.  A descriptor is open exactly as long as a client has
it. -/
theorem descriptors_conform {events : List Event}
    (hpromised : Machine.Throughout (step inet_aton) Promised {} events)
    (hrun : Machine.run (step inet_aton) {} events = some p) :
    ∃ lives, Protocol.Conforms Life.step none about p.log lives ∧ ∀ fd i st,
      lives fd = some (i, st) ↔ ∃ c, p.clients[i]? = some c ∧ c.held = some (fd, st) := by
  obtain ⟨lives, h⟩ := tended_of_run hpromised hrun
  exact ⟨lives, h.conforms, h.holders⟩

/-- The second client does not get its timeouts while the first one connects; it tries again when
the first one is sending. -/
def twoClients : List Event :=
  [.create, .create, .call 0 (.connect (ascii "127.0.0.1") 6000), .answer 0 (.socket 3),
    .answer 0 (.setsockopt true), .call 1 (.connect (ascii "127.0.0.1") 6000),
      .answer 1 (.socket 4),
    .answer 0 (.setsockopt true), .answer 1 (.setsockopt false), .answer 0 (.connect .interrupted),
    .answer 1 .close, .answer 0 (.connect .connected), .call 0 (.sendData [7]),
    .call 1 (.connect (ascii "127.0.0.1") 6000), .answer 1 (.socket 4), .answer 0 (.send (.sent 5)),
    .call 0 .destroy, .answer 1 (.setsockopt true), .answer 0 .close]

/-- `inet_aton`, as far as one address goes. -/
def loopback (ip_addr : Bytes) : Option UInt32 :=
  if ip_addr = ascii "127.0.0.1" then some 2130706433 else none

lemma promised_twoClients : Machine.Throughout (step loopback) Promised {} twoClients := by
  decide +kernel

/-- The first descriptor is closed, the second one is in the second client's `connect`. -/
theorem descriptors_conform_two : ∃ p, Machine.run (step loopback) {} twoClients = some p ∧
    ∃ lives, Protocol.Conforms Life.step none about p.log lives ∧ lives 3 = none ∧
      lives 4 = some (1, .sendTimeout) := by
  obtain ⟨p, hrun⟩ : ∃ p, Machine.run (step loopback) {} twoClients = some p :=
    Option.isSome_iff_exists.mp (by decide +kernel)
  obtain ⟨lives, hconforms, hholders⟩ := descriptors_conform promised_twoClients hrun
  have hclients : (Machine.run (step loopback) {} twoClients).map
      (fun p => p.clients.map TcpClient.held) = some [none, some (4, .sendTimeout)] := by
    decide +kernel
  rw [hrun, Option.map_some, Option.some.injEq] at hclients
  have hget : ∀ i : ℕ, p.clients[i]?.map TcpClient.held =
      ([none, some (4, .sendTimeout)] : List (Option (ℤ × Stage)))[i]? := fun i => by
    rw [← hclients, List.getElem?_map]
  refine ⟨p, hrun, lives, hconforms, ?_, ?_⟩
  · cases hlive : lives 3 with
    | none => rfl
    | some x =>
        obtain ⟨c, hi, hheld⟩ := (hholders 3 x.1 x.2).mp hlive
        have h := hget x.1
        rw [hi, Option.map_some, hheld] at h
        have hmem := List.mem_of_getElem? h.symm
        simp at hmem
  · obtain ⟨c, hi, hheld⟩ := Option.map_eq_some_iff.mp ((hget 1).trans rfl)
    exact (hholders 4 1 .sendTimeout).mpr ⟨c, hi, hheld⟩

/-- The descriptors that a client was given, as often as it was given them. -/
def opened (p : Process) (i : ℕ) : Multiset ℤ :=
  ((p.log.filter fun e => e.1 = i ∧ obtains e).filterMap about : List ℤ)

/-- The descriptors that a client has closed. -/
def closed (p : Process) (i : ℕ) : Multiset ℤ :=
  ((p.log.filter fun e => e.1 = i ∧ closes e).filterMap about : List ℤ)

/-- How often a descriptor is among those of some calls. -/
lemma count_about (log : List (ℕ × Syscall)) (q : ℕ × Syscall → Bool) (fd : ℤ) :
    ((log.filter q).filterMap about).count fd = (Protocol.history about log fd).countP q := by
  rw [Protocol.history, List.countP_filter, List.count, List.countP_filterMap, List.countP_filter]
  refine List.countP_congr fun e _ => ?_
  cases h : about e with
  | none => simp
  | some fd' => simp [and_comm]

/-- A descriptor is in the hands of a client exactly when the client has it to close. -/
lemma Tended.count_held (h : p.Tended lives) (hi : p.clients[i]? = some c) (fd : ℤ) :
    worth (fun j => decide (j = i)) (lives fd) = c.holding.count fd := by
  cases hlive : lives fd with
  | none =>
      have hnot : fd ∉ c.holding := fun hmem => by
        obtain ⟨st, hheld⟩ := TcpClient.mem_holding_iff.mp hmem
        rw [(h.holders fd i st).mpr ⟨c, hi, hheld⟩] at hlive
        cases hlive
      rw [Multiset.count_eq_zero_of_notMem hnot]
      rfl
  | some x =>
      obtain ⟨j, st⟩ := x
      obtain ⟨d, hj, hheld⟩ := (h.holders fd j st).mp hlive
      by_cases hji : j = i
      · subst hji
        rw [hi] at hj
        cases hj
        simp [worth, TcpClient.holding, hheld]
      · have hnot : fd ∉ c.holding := fun hmem => by
          obtain ⟨st', hheld'⟩ := TcpClient.mem_holding_iff.mp hmem
          rw [(h.holders fd i st').mpr ⟨c, hi, hheld'⟩] at hlive
          cases hlive
          exact hji rfl
        simp [worth, Multiset.count_eq_zero_of_notMem hnot, hji]

/-- **No descriptor leaks and none is closed twice.**  The sockets a client has opened are those it
has closed and the one it holds, the connected one or the one `connect` is working on; so a client
that is in no method and not connected, or destroyed, has closed whatever it has opened. -/
theorem descriptors_balance {events : List Event}
    (hpromised : Machine.Throughout (step inet_aton) Promised {} events)
    (hrun : Machine.run (step inet_aton) {} events = some p) (hi : p.clients[i]? = some c) :
    p.opened i = p.closed i + c.holding ∧
      (c.point = .idle ∧ c.is_connected = false ∨ c.point = .gone →
        p.opened i = p.closed i) := by
  obtain ⟨lives, h⟩ := tended_of_run hpromised hrun
  have hcount : ∀ (q : ℕ × Syscall → Bool) (fd : ℤ),
      ((p.log.filter fun e => e.1 = i ∧ q e).filterMap about).count fd =
        (Protocol.history about p.log fd).countP fun e => decide (e.1 = i) && q e := by
    intro q fd
    rw [← count_about]
    simp
  have hall : p.opened i = p.closed i + c.holding := by
    ext fd
    have hbalance := balance_life h.conforms (fun j => decide (j = i)) fd
    rw [h.count_held hi] at hbalance
    rw [Multiset.count_add, opened, closed, Multiset.coe_count, Multiset.coe_count, hcount, hcount,
      hbalance, add_comm]
  refine ⟨hall, fun hdone => ?_⟩
  have hnone : c.held = none := by
    rcases hdone with ⟨hidle, hoff⟩ | hgone
    · rw [TcpClient.held_of_idle hidle, if_neg (of_decide_eq_false hoff)]
    · simp only [TcpClient.held, hgone]
  simpa [TcpClient.holding, hnone] using hall

/-- The first client has closed its descriptor.  The second one has closed its first descriptor,
after a timeout could not be set, and has got the same number again. -/
theorem descriptors_balance_two : ∃ p, Machine.run (step loopback) {} twoClients = some p ∧
    p.opened 0 = p.closed 0 ∧ p.opened 1 = p.closed 1 + {4} ∧ 4 ∈ p.closed 1 := by
  obtain ⟨p, hrun⟩ : ∃ p, Machine.run (step loopback) {} twoClients = some p :=
    Option.isSome_iff_exists.mp (by decide +kernel)
  have hstate : ∀ p ∈ Machine.run (step loopback) {} twoClients,
      p.clients.map TcpClient.point = [.gone, .recvTimeout 4 ⟨2130706433, 6000⟩] ∧
        4 ∈ p.closed 1 := by decide +kernel
  obtain ⟨hpoints, hclosed⟩ := hstate p hrun
  have hget : ∀ j : ℕ, p.clients[j]?.map TcpClient.point =
      ([.gone, .recvTimeout 4 ⟨2130706433, 6000⟩] : List Point)[j]? := fun j => by
    rw [← hpoints, List.getElem?_map]
  obtain ⟨c₀, h₀, hpoint₀⟩ := Option.map_eq_some_iff.mp ((hget 0).trans rfl)
  obtain ⟨c₁, h₁, hpoint₁⟩ := Option.map_eq_some_iff.mp ((hget 1).trans rfl)
  have hheld₁ : c₁.held = some (4, .sendTimeout) := by simp only [TcpClient.held, hpoint₁]
  have hsecond := (descriptors_balance promised_twoClients hrun h₁).1
  rw [TcpClient.holding, hheld₁] at hsecond
  exact ⟨p, hrun, (descriptors_balance promised_twoClients hrun h₀).2 (.inr hpoint₀), hsecond,
    hclosed⟩

end Process

end Tracebox
