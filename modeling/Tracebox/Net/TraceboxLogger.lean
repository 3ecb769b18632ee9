import Tracebox.Lib.Progress
import Tracebox.Net.Recording
import Tracebox.Net.Server
import Tracebox.Storage.Sessions

/-!
# `TraceboxLogger`

The recording program as a whole: any number of connections, the thread of the server, which reads
one frame at a time and calls the callback, the queue with its worker, and the destructor, which
stops the server before the writer goes.  All of them take their steps in any order.

* `LoggerSystem` — the parts side by side, `Serves` — what holds of them in every reachable
  state.
* `logger_delivers` — **what the storage gets is what the connections have delivered**: of every
  connection a beginning of what its peer has sent, in the order of the callbacks, nothing twice and
  nothing refused; and all of it is written once the destructor is through.
* `logger_found` — **from the sockets to the reader**: what a client of the log finds afterwards
  are the records of those requests that the storage has kept.
-/

namespace Tracebox

open Bytes

/-! ## The system -/

/-- Where the thread of the server is. -/
inductive ServerThread where
  /-- at the top of the event loop -/
  | idle
  /-- in `readData` -/
  | reading (i : ℕ)
  /-- back from `readData` with a payload -/
  | read (i : ℕ) (buffer : Bytes)
  /-- past the last check of `state_` -/
  | calling (i : ℕ) (buffer : Bytes)
  | ended
  deriving DecidableEq

/-- How far the destructor is. -/
inductive Teardown where
  | alive
  /-- `Server::stop` has changed the state -/
  | stopping
  /-- `Server::stop` has joined the thread -/
  | stopped
  /-- `LogWriter::stop` has set its flag -/
  | draining
  deriving DecidableEq, Repr

/-- A recording program: its server, the connections, and the writer behind the callback. -/
structure LoggerSystem (σ : Type*) where
  connections : List Connection := []
  /-- `state_` of the server is `kRunning` -/
  running : Bool
  thread : ServerThread
  /-- the payloads that got to the callback, and where they came from -/
  calls : List (ℕ × Bytes) := []
  writer : LogWriterSystem σ
  teardown : Teardown := .alive

namespace LoggerSystem

variable {σ : Type*} (pb : Protobuf) (write : σ → LogRequest → Option σ)

/-- The constructor; what `Server::start` returns is not looked at. -/
def start (started : Bool) (storage : σ) : LoggerSystem σ where
  running := started
  thread := if started then .idle else .ended
  writer := .start storage

/-- What happens in a recording program. -/
inductive Action where
  /-- the server accepts a client -/
  | accept
  /-- the peer of a connection sends a payload -/
  | send (i : ℕ) (payload : Bytes)
  /-- bytes arrive on a connection -/
  | arrive (i n : ℕ)
  /-- `epoll_wait` reports a connection as readable -/
  | wakeup (i : ℕ)
  /-- `recv` returns `n` bytes of the connection that is read, or fails -/
  | recv (n : ℕ)
  | interrupt
  /-- the server drops a connection -/
  | drop (i : ℕ)
  /-- `handleLogRequest` checks the state -/
  | check
  /-- the callback -/
  | callback
  /-- the event loop ends, and all connections are closed -/
  | leave
  /-- the destructor calls `Server::stop` -/
  | stop
  /-- `Server::stop` has joined the thread -/
  | joinServer
  /-- the destructor of the writer calls `LogWriter::stop` -/
  | stopWriter
  /-- the worker looks at its condition -/
  | wait
  /-- `Storage::write` returns -/
  | write
  /-- `LogWriter::stop` has joined the worker -/
  | joinWriter
  deriving DecidableEq

/-- `unregisterFd`. -/
def unregister (c : Connection) : Connection := { c with registered := false, reader := none }

/-- One connection has changed. -/
def update (s : LoggerSystem σ) (i : ℕ) (c : Connection) : LoggerSystem σ :=
  { s with connections := s.connections.set i c }

/-- Where the thread is after a `recv`: `readData` goes on, or has returned a payload, or
nothing. -/
def afterRecv (i : ℕ) (c c' : Connection) : ServerThread :=
  if c'.reader.isSome then .reading i
  else match c'.delivered.drop c.delivered.length with
    | [] => .idle
    | buffer :: _ => .read i buffer

/-- A `recv` of the connection that is read. -/
def stepRecv (s : LoggerSystem σ) (e : Connection.Event) : Option (LoggerSystem σ) :=
  match s.thread with
  | .reading i => s.connections[i]?.bind fun c => (c.step e).map fun c' =>
      { s.update i c' with thread := afterRecv i c c' }
  | _ => none

/-- One step; none when the action is not possible. -/
def step (s : LoggerSystem σ) : Action → Option (LoggerSystem σ)
  | .accept =>
      if s.thread = .idle ∧ s.running = true then
        some { s with connections := s.connections ++ [{}] }
      else none
  | .send i payload => s.connections[i]?.bind fun c => (c.step (.send payload)).map (s.update i)
  | .arrive i n => s.connections[i]?.bind fun c => (c.step (.arrive n)).map (s.update i)
  | .wakeup i =>
      if s.thread = .idle ∧ s.running = true then
        s.connections[i]?.bind fun c => (c.step .wakeup).map fun c' =>
          { s.update i c' with thread := .reading i }
      else none
  | .recv n => s.stepRecv (.recv n)
  | .interrupt => s.stepRecv .interrupt
  | .drop i =>
      if s.thread = .idle ∧ s.running = true then
        s.connections[i]?.map fun c => s.update i (unregister c)
      else none
  | .check =>
      match s.thread with
      | .read i buffer =>
          if s.running then some { s with thread := .calling i buffer }
          else s.connections[i]?.map fun c => { s.update i (unregister c) with thread := .idle }
      | _ => none
  | .callback =>
      match s.thread with
      | .calling i buffer => some { s with
          thread := .idle
          calls := s.calls ++ [(i, buffer)]
          writer := TraceboxLogger.received pb s.writer buffer }
      | _ => none
  | .leave =>
      if s.thread = .idle then
        some { s with thread := .ended, connections := s.connections.map unregister }
      else none
  | .stop =>
      if s.teardown = .alive then some { s with running := false, teardown := .stopping } else none
  | .joinServer =>
      if s.teardown = .stopping ∧ s.thread = .ended then some { s with teardown := .stopped }
      else none
  | .stopWriter =>
      if s.teardown = .stopped then
        (s.writer.step write .stop).map fun w => { s with writer := w, teardown := .draining }
      else none
  | .wait => (s.writer.step write .wait).map fun w => { s with writer := w }
  | .write => (s.writer.step write .write).map fun w => { s with writer := w }
  | .joinWriter =>
      if s.teardown = .draining then
        (s.writer.step write .join).map fun w => { s with writer := w }
      else none

/-- The payload the thread has in its hands. -/
def hand (s : LoggerSystem σ) : List (ℕ × Bytes) :=
  match s.thread with
  | .read i buffer => [(i, buffer)]
  | .calling i buffer => [(i, buffer)]
  | _ => []

/-- The payloads of one connection. -/
def payloads (i : ℕ) (calls : List (ℕ × Bytes)) : List Bytes :=
  (calls.filter fun call => call.1 = i).map Prod.snd

/-- The requests in the payloads that can be parsed. -/
def requests (calls : List (ℕ × Bytes)) : List LogRequest :=
  calls.filterMap fun call => (pb.ParseFromArray call.2).map LogRequestMessage.request

variable {pb write} {s s' : LoggerSystem σ} {c c' : Connection} {i : ℕ}

lemma payloads_append (i : ℕ) (xs ys : List (ℕ × Bytes)) :
    payloads i (xs ++ ys) = payloads i xs ++ payloads i ys := by
  simp [payloads]

lemma payloads_self (i : ℕ) (buffer : Bytes) : payloads i [(i, buffer)] = [buffer] := by
  simp [payloads]

lemma payloads_other {j : ℕ} (h : j ≠ i) (buffer : Bytes) : payloads i [(j, buffer)] = [] := by
  simp [payloads, h]

/-- A connection that no call came from. -/
lemma payloads_eq_nil {calls : List (ℕ × Bytes)} (h : ∀ call ∈ calls, call.1 < i) :
    payloads i calls = [] := by
  rw [payloads, List.map_eq_nil_iff, List.filter_eq_nil_iff]
  intro call hcall
  have := h call hcall
  simp only [decide_eq_true_eq]
  omega

/-- What a peer does, and a wake-up, delivers nothing. -/
lemma delivered_of_event {e : Connection.Event} (h : c.step e = some c')
    (he : ∀ n, e ≠ .recv n ∧ e ≠ .interrupt) :
    c'.delivered = c.delivered ∧ (e ≠ .wakeup → c'.reader = c.reader) := by
  cases e with
  | send payload =>
      simp only [Connection.step] at h
      split_ifs at h
      cases h
      exact ⟨rfl, fun _ => rfl⟩
  | arrive n =>
      simp only [Connection.step] at h
      split_ifs at h
      cases h
      exact ⟨rfl, fun _ => rfl⟩
  | wakeup =>
      simp only [Connection.step] at h
      split_ifs at h
      cases h
      exact ⟨rfl, fun h => absurd rfl h⟩
  | recv n => exact absurd rfl (he n).1
  | interrupt => exact absurd rfl (he 0).2

lemma delivered_advance (c : Connection) (r : ReadStep) :
    (c.advance r).delivered = c.delivered ∨
      ∃ buffer, (c.advance r).delivered = c.delivered ++ [buffer] ∧
        (c.advance r).reader = none := by
  cases r with
  | reading st => exact Or.inl rfl
  | returned buffer =>
      simp only [Connection.advance, Connection.handleLogRequest]
      split_ifs
      · exact Or.inl rfl
      · exact Or.inr ⟨buffer, rfl, rfl⟩

/-- A `recv` delivers one payload, and then the reader is done, or none. -/
lemma delivered_of_recv {e : Connection.Event} (h : c.step e = some c')
    (he : (∃ n, e = .recv n) ∨ e = .interrupt) :
    c'.delivered = c.delivered ∨
      ∃ buffer, c'.delivered = c.delivered ++ [buffer] ∧ c'.reader = none := by
  rcases he with ⟨n, rfl⟩ | rfl
  · simp only [Connection.step] at h
    split at h
    · cases h
    · split_ifs at h
      · cases h
        exact delivered_advance _ _
      · cases h
        exact delivered_advance { c with readable := c.readable.drop n } _
  · simp only [Connection.step] at h
    split at h
    · cases h
    · cases h
      exact delivered_advance _ _

lemma unregister_accounted (h : c.Accounted) : (unregister c).Accounted where
  sendable := h.sendable
  delivered := h.delivered
  bytes hreg := by cases hreg
  idle _ := rfl

/-! ## The invariant -/

/-- The payloads that were delivered have got to the callback, but for the one in the thread's
hands; once the server has dropped one because it was stopping, no further one gets there. -/
def Ordered (s : LoggerSystem σ) : Prop :=
  (∀ i c, s.connections[i]? = some c → payloads i (s.calls ++ s.hand) = c.delivered) ∨
    (s.running = false ∧ (s.thread = .idle ∨ s.thread = .ended) ∧
      ∀ i c, s.connections[i]? = some c → payloads i s.calls <+: c.delivered)

/-- What holds in every reachable state. -/
structure Serves (pb : Protobuf) (s : LoggerSystem σ) : Prop where
  accounted : ∀ c ∈ s.connections, c.Accounted
  /-- one connection is read at a time -/
  readers : ∀ i c, s.connections[i]? = some c → c.reader.isSome = true → s.thread = .reading i
  ordered : s.Ordered
  known : ∀ call ∈ s.calls ++ s.hand, call.1 < s.connections.length
  /-- nothing was refused -/
  added : s.writer.added = (requests pb s.calls).map fun request => (request, true)
  /-- the writer outlives the thread of the server -/
  serving : s.thread ≠ .ended → s.teardown = .alive ∨ s.teardown = .stopping
  flag : s.teardown ≠ .draining → s.writer.writer.stopping_ = false
  writer : s.writer.Inv

lemma serves_start (pb : Protobuf) (started : Bool) (storage : σ) :
    (start started storage).Serves pb where
  accounted := by simp [start]
  readers := by simp [start]
  ordered := Or.inl (by simp [start])
  known := by cases started <;> simp [start, hand]
  added := rfl
  serving _ := Or.inl rfl
  flag _ := rfl
  writer := LogWriterSystem.inv_start storage

/-- The connections after a change of one. -/
lemma get_update (hi : s.connections[i]? = some c) (c' : Connection) {j : ℕ} {d : Connection}
    (hd : (s.update i c').connections[j]? = some d) :
    j = i ∧ d = c' ∨ j ≠ i ∧ s.connections[j]? = some d := by
  obtain ⟨hlt, -⟩ := List.getElem?_eq_some_iff.mp hi
  by_cases hj : j = i
  · subst hj
    simp only [LoggerSystem.update, List.getElem?_set_self hlt, Option.some.injEq] at hd
    exact Or.inl ⟨rfl, hd.symm⟩
  · rw [LoggerSystem.update, List.getElem?_set_ne (Ne.symm hj)] at hd
    exact Or.inr ⟨hj, hd⟩

/-- A connection has changed that has not delivered anything. -/
lemma Serves.update (h : s.Serves pb) (hi : s.connections[i]? = some c) (hc : c'.Accounted)
    (hdelivered : c'.delivered = c.delivered)
    (hreader : c'.reader.isSome = true → s.thread = .reading i) : (s.update i c').Serves pb := by
  refine ⟨fun d hd => ?_, fun j d hd hsome => ?_, ?_, ?_, h.added, h.serving, h.flag, h.writer⟩
  · rcases List.mem_or_eq_of_mem_set hd with hd | rfl
    · exact h.accounted d hd
    · exact hc
  · rcases get_update hi c' hd with ⟨rfl, rfl⟩ | ⟨-, hd⟩
    · exact hreader hsome
    · exact h.readers j d hd hsome
  · rcases h.ordered with hall | ⟨hstop, hthread, hall⟩
    · refine Or.inl fun j d hd => ?_
      rcases get_update hi c' hd with ⟨rfl, rfl⟩ | ⟨-, hd⟩
      · rw [hdelivered]
        exact hall j c hi
      · exact hall j d hd
    · refine Or.inr ⟨hstop, hthread, fun j d hd => ?_⟩
      rcases get_update hi c' hd with ⟨rfl, rfl⟩ | ⟨-, hd⟩
      · rw [hdelivered]
        exact hall j c hi
      · exact hall j d hd
  · have hlength : (s.update i c').connections.length = s.connections.length := List.length_set
    rw [hlength]
    exact h.known

/-- **A `recv`**: the payload that it completes goes into the thread's hands. -/
lemma Serves.recv (h : s.Serves pb) (ht : s.thread = .reading i) (hi : s.connections[i]? = some c)
    {e : Connection.Event} (hstep : c.step e = some c')
    (he : (∃ n, e = .recv n) ∨ e = .interrupt) :
    ({ s.update i c' with thread := afterRecv i c c' } : LoggerSystem σ).Serves pb := by
  obtain ⟨hlt, -⟩ := List.getElem?_eq_some_iff.mp hi
  have hhand : s.hand = [] := by rw [hand, ht]
  have hall : ∀ j d, s.connections[j]? = some d → payloads j s.calls = d.delivered := by
    rcases h.ordered with hall | ⟨-, hthread, -⟩
    · rwa [hhand, List.append_nil] at hall
    · rw [ht] at hthread
      rcases hthread with h | h <;> cases h
  have hrunning : afterRecv i c c' ≠ .ended := by
    rw [afterRecv]
    split_ifs
    · exact nofun
    · split <;> exact nofun
  -- what the thread has in its hands is what was delivered
  have hhand' : (afterRecv i c c' = .idle ∨ afterRecv i c c' = .reading i) ∧
        c'.delivered = c.delivered ∨
      ∃ buffer, afterRecv i c c' = .read i buffer ∧ c'.delivered = c.delivered ++ [buffer] := by
    rcases delivered_of_recv hstep he with hsame | ⟨buffer, hnew, hreader⟩
    · left
      refine ⟨?_, hsame⟩
      rw [afterRecv, hsame, List.drop_length]
      split_ifs
      · exact Or.inr rfl
      · exact Or.inl rfl
    · right
      refine ⟨buffer, ?_, hnew⟩
      rw [afterRecv, hreader, hnew, List.drop_left]
      rfl
  have hcalls : (∀ j d, (s.update i c').connections[j]? = some d →
      payloads j (s.calls ++ ({ s.update i c' with thread := afterRecv i c c' }).hand) =
        d.delivered) ∧
      ∀ call ∈ ({ s.update i c' with thread := afterRecv i c c' }).hand, call.1 = i := by
    rcases hhand' with ⟨hthread, hsame⟩ | ⟨buffer, hthread, hnew⟩
    · have hnil : ({ s.update i c' with thread := afterRecv i c c' }).hand = [] := by
        rcases hthread with hthread | hthread <;> rw [hthread] <;> rfl
      rw [hnil, List.append_nil]
      refine ⟨fun j d hd => ?_, by simp⟩
      rcases get_update hi c' hd with ⟨rfl, rfl⟩ | ⟨-, hd⟩
      · rw [hsame]
        exact hall j c hi
      · exact hall j d hd
    · have hone : ({ s.update i c' with thread := afterRecv i c c' }).hand = [(i, buffer)] := by
        rw [hthread]
        rfl
      rw [hone]
      refine ⟨fun j d hd => ?_, by simp⟩
      rw [payloads_append]
      rcases get_update hi c' hd with ⟨rfl, rfl⟩ | ⟨hj, hd⟩
      · rw [payloads_self, hall j c hi, hnew]
      · rw [payloads_other (Ne.symm hj), List.append_nil]
        exact hall j d hd
  refine ⟨fun d hd => ?_, fun j d hd hsome => ?_, Or.inl hcalls.1, fun call hcall => ?_, h.added,
    fun _ => h.serving (by rw [ht]; exact nofun), h.flag, h.writer⟩
  · rcases List.mem_or_eq_of_mem_set hd with hd | rfl
    · exact h.accounted d hd
    · exact (Connection.step_accounted (h.accounted c (List.mem_of_getElem? hi)) hstep).1
  · rcases get_update hi c' hd with ⟨rfl, rfl⟩ | ⟨hj, hd⟩
    · simp only [afterRecv, hsome, if_true]
    · have hreading := h.readers j d hd hsome
      rw [ht] at hreading
      cases hreading
      exact absurd rfl hj
  · have hlength : (s.update i c').connections.length = s.connections.length := List.length_set
    rw [hlength]
    rcases List.mem_append.mp hcall with hcall | hcall
    · exact h.known call (List.mem_append_left _ hcall)
    · rw [hcalls.2 call hcall]
      exact hlt

/-- A step of the writer that is not a call of `add`. -/
lemma writer_step {w w' : LogWriterSystem σ} {a : LogWriterAction} (h : w.step write a = some w')
    (ha : ∀ request, a ≠ .add request) :
    w'.added = w.added ∧ (a ≠ .stop → w'.writer.stopping_ = w.writer.stopping_) := by
  cases LogWriterSystem.step_moves h with
  | accepted request => exact absurd rfl (ha request)
  | refused request => exact absurd rfl (ha request)
  | stopping hs' =>
      rw [hs']
      exact ⟨rfl, fun hne => absurd rfl hne⟩
  | joined _ hs' | idle hs' | left _ _ _ hs' | took _ _ _ _ hs' | wrote _ _ _ _ hs' =>
      rw [hs']
      exact ⟨rfl, fun _ => rfl⟩

/-- **The callback**: the request in the payload, if there is one, is accepted. -/
lemma Serves.callback (h : s.Serves pb) {buffer : Bytes} (ht : s.thread = .calling i buffer) :
    ({ s with
      thread := .idle
      calls := s.calls ++ [(i, buffer)]
      writer := TraceboxLogger.received pb s.writer buffer } : LoggerSystem σ).Serves pb := by
  have hhand : s.hand = [(i, buffer)] := by rw [hand, ht]
  have hall : ∀ j d, s.connections[j]? = some d →
      payloads j (s.calls ++ [(i, buffer)]) = d.delivered := by
    rcases h.ordered with hall | ⟨-, hthread, -⟩
    · rwa [hhand] at hall
    · rw [ht] at hthread
      rcases hthread with h | h <;> cases h
  have hknown := h.known
  rw [hhand] at hknown
  have hne : buffer ≠ [] := by
    have hlt := hknown (i, buffer) (by simp)
    have hi : s.connections[i]? = some s.connections[i] := List.getElem?_eq_getElem hlt
    have hacc := h.accounted _ (List.mem_of_getElem? hi)
    have hmem : buffer ∈ payloads i (s.calls ++ [(i, buffer)]) := by
      rw [payloads_append, payloads_self]
      simp
    rw [hall i _ hi] at hmem
    exact (hacc.sendable buffer (hacc.delivered.subset hmem)).1
  have hopen : s.writer.writer.stopping_ = false := by
    refine h.flag ?_
    rcases h.serving (by rw [ht]; exact nofun) with htear | htear <;> rw [htear] <;> exact nofun
  have hidle : (∀ j d, s.connections[j]? = some d → d.reader.isSome = true →
      ServerThread.idle = .reading j) := by
    intro j d hd hsome
    have hreading := h.readers j d hd hsome
    rw [ht] at hreading
    cases hreading
  have hserving := h.serving (by rw [ht]; exact nofun)
  rw [TraceboxLogger.received, if_neg hne, TraceboxLogger.handleLogRequest]
  have hnew : requests pb (s.calls ++ [(i, buffer)]) = requests pb s.calls ++
      ((pb.ParseFromArray buffer).map LogRequestMessage.request).toList := by
    cases hparse : pb.ParseFromArray buffer <;> simp [requests, hparse]
  cases hparse : pb.ParseFromArray buffer with
  | none =>
      refine ⟨h.accounted, hidle, Or.inl fun j d hd => ?_, ?_, ?_, fun _ => hserving, h.flag,
        h.writer⟩
      · rw [hand, List.append_nil]
        exact hall j d hd
      · rw [hand, List.append_nil]
        exact hknown
      · rw [hnew, hparse, Option.map_none, Option.toList_none, List.append_nil]
        exact h.added
  | some m =>
      have hadd : s.writer.writer.add m.request =
          (true, { s.writer.writer with queue_ := s.writer.writer.queue_ ++ [m.request] }) := by
        simp [LogWriter.add, hopen]
      have hstep : s.writer.step (fun _ _ => none) (.add m.request) = some { s.writer with
          writer := { s.writer.writer with queue_ := s.writer.writer.queue_ ++ [m.request] }
          added := s.writer.added ++ [(m.request, true)] } := by
        rw [LogWriterSystem.step, hadd]
      simp only [hadd]
      refine ⟨h.accounted, hidle, Or.inl fun j d hd => ?_, ?_, ?_, fun _ => hserving, h.flag,
        LogWriterSystem.inv_step h.writer hstep⟩
      · rw [hand, List.append_nil]
        exact hall j d hd
      · rw [hand, List.append_nil]
        exact hknown
      · rw [hnew, hparse, Option.map_some, Option.toList_some, List.map_append, ← h.added]
        rfl

/-- The thread checks the state, with a payload in its hands. -/
lemma Serves.check (h : s.Serves pb) {buffer : Bytes} (ht : s.thread = .read i buffer)
    (hstep : s.step pb write .check = some s') : s'.Serves pb := by
  have hhand : s.hand = [(i, buffer)] := by rw [hand, ht]
  have hserving := h.serving (by rw [ht]; exact nofun)
  have hnone : ∀ (j : ℕ) (d : Connection), s.connections[j]? = some d →
    d.reader.isSome ≠ true := by
    intro j d hd hsome
    have hreading := h.readers j d hd hsome
    rw [ht] at hreading
    cases hreading
  simp only [step, ht] at hstep
  split_ifs at hstep with hrun
  · cases hstep
    refine ⟨h.accounted, fun j d hd hsome => absurd hsome (hnone j d hd), ?_, ?_, h.added,
      fun _ => hserving, h.flag, h.writer⟩
    · rcases h.ordered with hall | ⟨-, hthread, -⟩
      · rw [hhand] at hall
        exact Or.inl hall
      · rw [ht] at hthread
        rcases hthread with h | h <;> cases h
    · have hknown := h.known
      rw [hhand] at hknown
      exact hknown
  · obtain ⟨c, hi, rfl⟩ := Option.map_eq_some_iff.mp hstep
    have hsame := h.update hi (unregister_accounted (h.accounted c (List.mem_of_getElem? hi))) rfl
      nofun
    refine ⟨hsame.accounted, fun j d hd hsome => ?_,
      Or.inr ⟨by simpa [LoggerSystem.update] using hrun, Or.inl rfl, fun j d hd => ?_⟩,
        fun call hcall => ?_, h.added, fun _ => hserving, h.flag, h.writer⟩
    · have hreading := hsame.readers j d hd hsome
      rw [LoggerSystem.update, ht] at hreading
      cases hreading
    · rcases hsame.ordered with hall | ⟨-, hthread, -⟩
      · have hd' := hall j d hd
        rw [payloads_append] at hd'
        exact ⟨_, hd'⟩
      · rw [LoggerSystem.update, ht] at hthread
        rcases hthread with h | h <;> cases h
    · rw [hand, List.append_nil] at hcall
      exact hsame.known call (List.mem_append_left _ hcall)

/-- The thread goes while it holds nothing. -/
lemma Serves.thread (h : s.Serves pb) (ht : s.thread = .idle) {t : ServerThread}
    (hhand : ({ s with thread := t } : LoggerSystem σ).hand = [])
    (hstop : s.running = false → t = .idle ∨ t = .ended) :
    ({ s with thread := t } : LoggerSystem σ).Serves pb := by
  have hnil : s.hand = [] := by rw [hand, ht]
  refine ⟨h.accounted, fun i c hi hsome => ?_, ?_, ?_, h.added,
    fun _ => h.serving (by rw [ht]; exact nofun), h.flag, h.writer⟩
  · have hreading := h.readers i c hi hsome
    rw [ht] at hreading
    cases hreading
  · rcases h.ordered with hall | ⟨hoff, -, hall⟩
    · rw [hnil] at hall
      refine Or.inl ?_
      rw [hhand]
      exact hall
    · exact Or.inr ⟨hoff, hstop hoff, hall⟩
  · rw [hhand]
    have hknown := h.known
    rw [hnil] at hknown
    exact hknown

/-- **One step of any part.** -/
lemma Serves.step (h : s.Serves pb) {a : Action} (hstep : s.step pb write a = some s') :
    s'.Serves pb := by
  cases a with
  | accept =>
      simp only [LoggerSystem.step] at hstep
      split_ifs at hstep with hidle
      cases hstep
      have hget : ∀ (i : ℕ) (c : Connection),
          (s.connections ++ [({} : Connection)])[i]? = some c →
            s.connections[i]? = some c ∨ i = s.connections.length ∧ c = ({} : Connection) := by
        intro i c hi
        by_cases hlt : i < s.connections.length
        · rw [List.getElem?_append_left hlt] at hi
          exact Or.inl hi
        · obtain ⟨hlt', hget⟩ := List.getElem?_eq_some_iff.mp hi
          rw [List.length_append, List.length_singleton] at hlt'
          obtain rfl : i = s.connections.length := by omega
          right
          simpa using hget.symm
      refine ⟨fun c hc => ?_, fun i c hi hsome => ?_, ?_, fun call hcall => ?_,
        h.added, h.serving, h.flag, h.writer⟩
      · rcases List.mem_append.mp hc with hc | hc
        · exact h.accounted c hc
        · rw [List.mem_singleton.mp hc]
          exact Connection.accounted_new
      · rcases hget i c hi with hi | ⟨-, rfl⟩
        · exact h.readers i c hi hsome
        · cases hsome
      · rcases h.ordered with hall | ⟨hoff, -⟩
        · refine Or.inl fun i c hi => ?_
          rcases hget i c hi with hi | ⟨rfl, rfl⟩
          · exact hall i c hi
          · exact payloads_eq_nil h.known
        · rw [hidle.2] at hoff
          cases hoff
      · have hlt := h.known call hcall
        rw [List.length_append]
        exact hlt.trans_le (Nat.le_add_right _ _)
  | send i payload =>
      obtain ⟨c, hi, hc⟩ := Option.bind_eq_some_iff.mp hstep
      obtain ⟨c', hone, rfl⟩ := Option.map_eq_some_iff.mp hc
      obtain ⟨hsame, hreader⟩ := delivered_of_event hone fun _ => ⟨nofun, nofun⟩
      have hacc := Connection.step_accounted (h.accounted c (List.mem_of_getElem? hi)) hone
      exact h.update hi hacc.1 hsame fun hsome => h.readers i c hi (hreader nofun ▸ hsome)
  | arrive i n =>
      obtain ⟨c, hi, hc⟩ := Option.bind_eq_some_iff.mp hstep
      obtain ⟨c', hone, rfl⟩ := Option.map_eq_some_iff.mp hc
      obtain ⟨hsame, hreader⟩ := delivered_of_event hone fun _ => ⟨nofun, nofun⟩
      have hacc := Connection.step_accounted (h.accounted c (List.mem_of_getElem? hi)) hone
      exact h.update hi hacc.1 hsame fun hsome => h.readers i c hi (hreader nofun ▸ hsome)
  | wakeup i =>
      simp only [LoggerSystem.step] at hstep
      split_ifs at hstep with hidle
      obtain ⟨c, hi, hc⟩ := Option.bind_eq_some_iff.mp hstep
      obtain ⟨c', hone, rfl⟩ := Option.map_eq_some_iff.mp hc
      have hreading := h.thread hidle.1 (t := .reading i) rfl fun hoff => by
        rw [hidle.2] at hoff
        cases hoff
      have hacc := Connection.step_accounted (h.accounted c (List.mem_of_getElem? hi)) hone
      exact hreading.update hi hacc.1 (delivered_of_event hone fun _ => ⟨nofun, nofun⟩).1
        fun _ => rfl
  | recv n =>
      simp only [LoggerSystem.step, stepRecv] at hstep
      split at hstep
      · rename_i i ht
        obtain ⟨c, hi, hc⟩ := Option.bind_eq_some_iff.mp hstep
        obtain ⟨c', hone, rfl⟩ := Option.map_eq_some_iff.mp hc
        exact h.recv ht hi hone (Or.inl ⟨n, rfl⟩)
      · cases hstep
  | interrupt =>
      simp only [LoggerSystem.step, stepRecv] at hstep
      split at hstep
      · rename_i i ht
        obtain ⟨c, hi, hc⟩ := Option.bind_eq_some_iff.mp hstep
        obtain ⟨c', hone, rfl⟩ := Option.map_eq_some_iff.mp hc
        exact h.recv ht hi hone (Or.inr rfl)
      · cases hstep
  | drop i =>
      simp only [LoggerSystem.step] at hstep
      split_ifs at hstep
      obtain ⟨c, hi, rfl⟩ := Option.map_eq_some_iff.mp hstep
      exact h.update hi (unregister_accounted (h.accounted c (List.mem_of_getElem? hi))) rfl nofun
  | check =>
      cases ht : s.thread with
      | read i buffer => exact h.check ht hstep
      | idle => simp [LoggerSystem.step, ht] at hstep
      | reading i => simp [LoggerSystem.step, ht] at hstep
      | calling i buffer => simp [LoggerSystem.step, ht] at hstep
      | ended => simp [LoggerSystem.step, ht] at hstep
  | callback =>
      cases ht : s.thread with
      | calling i buffer =>
          simp only [LoggerSystem.step, ht, Option.some.injEq] at hstep
          rw [← hstep]
          exact h.callback ht
      | idle => simp [LoggerSystem.step, ht] at hstep
      | reading i => simp [LoggerSystem.step, ht] at hstep
      | read i buffer => simp [LoggerSystem.step, ht] at hstep
      | ended => simp [LoggerSystem.step, ht] at hstep
  | leave =>
      simp only [LoggerSystem.step] at hstep
      split_ifs at hstep with hidle
      cases hstep
      have hended := h.thread hidle (t := .ended) rfl fun _ => Or.inr rfl
      have hget : ∀ (i : ℕ) (c : Connection), (s.connections.map unregister)[i]? = some c →
          ∃ d, s.connections[i]? = some d ∧ unregister d = c := by
        intro i c hi
        rw [List.getElem?_map] at hi
        exact Option.map_eq_some_iff.mp hi
      refine ⟨fun c hc => ?_, fun i c hi hsome => ?_, ?_, fun call hcall => ?_, h.added,
        hended.serving, h.flag, h.writer⟩
      · obtain ⟨d, hd, rfl⟩ := List.mem_map.mp hc
        exact unregister_accounted (h.accounted d hd)
      · obtain ⟨d, -, rfl⟩ := hget i c hi
        cases hsome
      · refine hended.ordered.imp (fun hall i c hi => ?_) fun ⟨hoff, ht, hall⟩ =>
          ⟨hoff, ht, fun i c hi => ?_⟩
        · obtain ⟨d, hd, rfl⟩ := hget i c hi
          exact hall i d hd
        · obtain ⟨d, hd, rfl⟩ := hget i c hi
          exact hall i d hd
      · rw [List.length_map]
        exact hended.known call hcall
  | stop =>
      simp only [LoggerSystem.step] at hstep
      split_ifs at hstep with htear
      cases hstep
      exact ⟨h.accounted, h.readers, h.ordered.imp id fun ⟨_, hrest⟩ =>
        ⟨rfl, hrest⟩, h.known, h.added, fun _ => Or.inr rfl, fun _ =>
          h.flag (by rw [htear]; exact nofun), h.writer⟩
  | joinServer =>
      simp only [LoggerSystem.step] at hstep
      split_ifs at hstep with htear
      cases hstep
      exact ⟨h.accounted, h.readers, h.ordered, h.known, h.added, fun hne => absurd htear.2 hne,
        fun _ => h.flag (by rw [htear.1]; exact nofun), h.writer⟩
  | stopWriter =>
      simp only [LoggerSystem.step] at hstep
      split_ifs at hstep with htear
      obtain ⟨w, hw, rfl⟩ := Option.map_eq_some_iff.mp hstep
      refine ⟨h.accounted, h.readers, h.ordered, h.known, ?_, fun hne => ?_,
        fun hne => absurd rfl hne, LogWriterSystem.inv_step h.writer hw⟩
      · rw [(writer_step hw nofun).1]
        exact h.added
      · rcases h.serving hne with h | h <;> rw [htear] at h <;> cases h
  | wait =>
      simp only [LoggerSystem.step] at hstep
      obtain ⟨w, hw, rfl⟩ := Option.map_eq_some_iff.mp hstep
      obtain ⟨hadded, hflag⟩ := writer_step hw nofun
      exact ⟨h.accounted, h.readers, h.ordered, h.known, hadded.trans h.added, h.serving,
        fun hne => (hflag nofun).trans (h.flag hne), LogWriterSystem.inv_step h.writer hw⟩
  | write =>
      simp only [LoggerSystem.step] at hstep
      obtain ⟨w, hw, rfl⟩ := Option.map_eq_some_iff.mp hstep
      obtain ⟨hadded, hflag⟩ := writer_step hw nofun
      exact ⟨h.accounted, h.readers, h.ordered, h.known, hadded.trans h.added, h.serving,
        fun hne => (hflag nofun).trans (h.flag hne), LogWriterSystem.inv_step h.writer hw⟩
  | joinWriter =>
      simp only [LoggerSystem.step] at hstep
      split_ifs at hstep
      obtain ⟨w, hw, rfl⟩ := Option.map_eq_some_iff.mp hstep
      obtain ⟨hadded, hflag⟩ := writer_step hw nofun
      exact ⟨h.accounted, h.readers, h.ordered, h.known, hadded.trans h.added, h.serving,
        fun hne => (hflag nofun).trans (h.flag hne), LogWriterSystem.inv_step h.writer hw⟩

/-! ## Whole runs -/

variable {started : Bool} {storage : σ} {actions : List Action}

lemma serves_of_run (hrun : Machine.run (step pb write) (start started storage) actions = some s) :
    s.Serves pb :=
  Machine.run_invariant_of_step (fun _ _ _ h hstep => h.step hstep)
    (serves_start pb started storage)
    hrun

/-- A quiet connection has delivered what was sent. -/
lemma delivered_eq_sent (h : c.Accounted) (hreg : c.registered = true) (hreader : c.reader = none)
    (hreadable : c.readable = []) (hflight : c.in_flight = []) : c.delivered = c.sent := by
  obtain ⟨rest, hrest⟩ := h.delivered
  have hbytes := h.bytes hreg
  rw [Connection.pending, hreader, hreadable, hflight, ← hrest, List.flatMap_append] at hbytes
  have hnil : rest.flatMap frame = [] := by simpa using hbytes
  cases rest with
  | nil => rw [← hrest, List.append_nil]
  | cons p rest =>
      rw [List.flatMap_cons, List.append_eq_nil_iff] at hnil
      exact absurd hnil.1 (prefixFree_frame.ne_nil p)

/-- What came to the callback from a connection is a beginning of what was sent. -/
lemma Serves.delivered (h : s.Serves pb) (hi : s.connections[i]? = some c) :
    payloads i s.calls <+: c.sent := by
  have hacc := h.accounted c (List.mem_of_getElem? hi)
  rcases h.ordered with hall | ⟨-, -, hall⟩
  · have hd := hall i c hi
    rw [payloads_append] at hd
    exact (hd ▸ List.prefix_append _ _).trans hacc.delivered
  · exact (hall i c hi).trans hacc.delivered

/-- As long as the server runs, it is all of it, when nothing is on its way. -/
lemma Serves.all_delivered (h : s.Serves pb) (hi : s.connections[i]? = some c)
    (hrunning : s.running = true) (hidle : s.thread = .idle) (hreg : c.registered = true)
    (hreadable : c.readable = []) (hflight : c.in_flight = []) : payloads i s.calls = c.sent := by
  have hreader : c.reader = none := by
    rw [← Option.not_isSome_iff_eq_none]
    intro hsome
    have hreading := h.readers i c hi hsome
    rw [hidle] at hreading
    cases hreading
  have hhand : s.hand = [] := by rw [hand, hidle]
  rw [← delivered_eq_sent (h.accounted c (List.mem_of_getElem? hi)) hreg hreader
    hreadable hflight]
  rcases h.ordered with hall | ⟨hoff, -⟩
  · rw [hhand, List.append_nil] at hall
    exact hall i c hi
  · rw [hrunning] at hoff
    cases hoff

/-- What is written, in the worker's hands or in the queue are the requests of the callbacks. -/
lemma Serves.ordered_requests (h : s.Serves pb) :
    s.writer.written ++ s.writer.writer.inHand ++ s.writer.writer.queue_ = requests pb s.calls := by
  have haccepted : s.writer.accepted = requests pb s.calls := by
    rw [LogWriterSystem.accepted, h.added]
    simp [List.filter_map, Function.comp_def]
  rw [← haccepted]
  exact h.writer.order

/-- Once the destructor is through, all of them are written. -/
lemma Serves.written (h : s.Serves pb) (hstopped : s.writer.stopped = true) :
    s.writer.written = requests pb s.calls := by
  have horder := h.ordered_requests
  have hgone := h.writer.stopped hstopped
  rwa [LogWriter.inHand, hgone, (h.writer.exited hgone).1, List.append_nil, List.append_nil]
    at horder

/-- **What the storage gets is what the connections deliver**, in every order of steps of the peers,
the network, the server, the worker and the destructor.

From each connection a beginning of what its peer has sent gets to the callback, in that order, and
all of it as long as the server runs and nothing is on its way.  The requests in these payloads are
written, in the worker's hands or in the queue, in the order of the callbacks; none is refused, and
once the destructor is through all of them are written. -/
theorem logger_delivers
    (hrun : Machine.run (step pb write) (start started storage) actions = some s) :
    (∀ i c, s.connections[i]? = some c → payloads i s.calls <+: c.sent ∧
      (s.running = true → s.thread = .idle → c.registered = true → c.readable = [] →
        c.in_flight = [] → payloads i s.calls = c.sent)) ∧
      s.writer.written ++ s.writer.writer.inHand ++ s.writer.writer.queue_ = requests pb s.calls ∧
      (∀ call ∈ s.writer.added, call.2 = true) ∧
      (s.writer.stopped = true → s.writer.written = requests pb s.calls) := by
  have h := serves_of_run hrun
  refine ⟨fun i c hi => ⟨h.delivered hi, h.all_delivered hi⟩,
    h.ordered_requests, fun call hcall => ?_, h.written⟩
  rw [h.added] at hcall
  obtain ⟨request, -, rfl⟩ := List.mem_map.mp hcall
  rfl

/-- The payload of a request of channel `name`. -/
def twoPeersPayload (name data : Bytes) : Bytes :=
  Protobuf.wire.encode ⟨some name, none, some data, some 1704067200000000000⟩

/-- What gets to the callback. -/
def twoPeersCalls : List (ℕ × Bytes) :=
  [(0, twoPeersPayload (ascii "a") (ascii "xy")), (1, twoPeersPayload (ascii "b") (ascii "z"))]

/-- Two peers send a request each; the bytes of the second one arrive while the first one is read,
and the destructor begins before the worker is done. -/
def twoPeers : List Action :=
  [.accept, .accept, .send 0 (twoPeersPayload (ascii "a") (ascii "xy")),
    .send 1 (twoPeersPayload (ascii "b") (ascii "z")), .arrive 0 21, .wakeup 0,
      .recv 4, .arrive 1 20,
    .recv 17, .check, .callback, .wakeup 1, .recv 4, .wait, .interrupt, .recv 16, .check, .stop,
    .callback, .leave, .joinServer, .write, .stopWriter, .wait, .write, .wait, .joinWriter]

/-- The requests of both peers are written when the destructor is through. -/
theorem logger_delivers_two : ∃ s, Machine.run (step .wire fun (_ : Unit) _ => some ())
      (start true ()) twoPeers = some s ∧
    s.writer.written = requests .wire twoPeersCalls ∧
      ∀ i c, s.connections[i]? = some c → payloads i twoPeersCalls <+: c.sent := by
  have hfacts : (Machine.run (step .wire fun (_ : Unit) _ => some ()) (start true ()) twoPeers).map
      (fun s => (s.calls, s.writer.stopped)) = some (twoPeersCalls, true) := by decide +kernel
  obtain ⟨s, hrun, heq⟩ := Option.map_eq_some_iff.mp hfacts
  obtain ⟨hcalls, hstopped⟩ := Prod.mk.inj heq
  obtain ⟨hsent, -, -, hwritten⟩ := logger_delivers hrun
  rw [hcalls] at hsent hwritten
  exact ⟨s, hrun, hwritten hstopped, fun i c hi => (hsent i c hi).1⟩

/-! ## With the storage of this program -/

/-- A step of the program is a step of the writer, or none. -/
lemma writer_moves {a : Action} (h : s.step pb write a = some s') :
    s'.writer = s.writer ∨ ∃ b, s.writer.step write b = some s'.writer := by
  cases a with
  | accept =>
      simp only [step] at h
      split_ifs at h
      cases h
      exact Or.inl rfl
  | send i payload =>
      obtain ⟨c, -, hc⟩ := Option.bind_eq_some_iff.mp h
      obtain ⟨c', -, rfl⟩ := Option.map_eq_some_iff.mp hc
      exact Or.inl rfl
  | arrive i n =>
      obtain ⟨c, -, hc⟩ := Option.bind_eq_some_iff.mp h
      obtain ⟨c', -, rfl⟩ := Option.map_eq_some_iff.mp hc
      exact Or.inl rfl
  | wakeup i =>
      simp only [step] at h
      split_ifs at h
      obtain ⟨c, -, hc⟩ := Option.bind_eq_some_iff.mp h
      obtain ⟨c', -, rfl⟩ := Option.map_eq_some_iff.mp hc
      exact Or.inl rfl
  | recv n =>
      simp only [step, stepRecv] at h
      split at h
      · obtain ⟨c, -, hc⟩ := Option.bind_eq_some_iff.mp h
        obtain ⟨c', -, rfl⟩ := Option.map_eq_some_iff.mp hc
        exact Or.inl rfl
      · cases h
  | interrupt =>
      simp only [step, stepRecv] at h
      split at h
      · obtain ⟨c, -, hc⟩ := Option.bind_eq_some_iff.mp h
        obtain ⟨c', -, rfl⟩ := Option.map_eq_some_iff.mp hc
        exact Or.inl rfl
      · cases h
  | drop i =>
      simp only [step] at h
      split_ifs at h
      obtain ⟨c, -, rfl⟩ := Option.map_eq_some_iff.mp h
      exact Or.inl rfl
  | check =>
      simp only [step] at h
      split at h
      · split_ifs at h
        · cases h
          exact Or.inl rfl
        · obtain ⟨c, -, rfl⟩ := Option.map_eq_some_iff.mp h
          exact Or.inl rfl
      · cases h
  | callback =>
      simp only [step] at h
      split at h
      · rename_i i buffer ht
        cases h
        simp only [TraceboxLogger.received, TraceboxLogger.handleLogRequest]
        split_ifs
        · exact Or.inl rfl
        · cases pb.ParseFromArray buffer with
          | none => exact Or.inl rfl
          | some m => exact Or.inr ⟨.add m.request, rfl⟩
      · cases h
  | leave =>
      simp only [step] at h
      split_ifs at h
      cases h
      exact Or.inl rfl
  | stop =>
      simp only [step] at h
      split_ifs at h
      cases h
      exact Or.inl rfl
  | joinServer =>
      simp only [step] at h
      split_ifs at h
      cases h
      exact Or.inl rfl
  | stopWriter =>
      simp only [step] at h
      split_ifs at h
      obtain ⟨w, hw, rfl⟩ := Option.map_eq_some_iff.mp h
      exact Or.inr ⟨.stop, hw⟩
  | wait =>
      obtain ⟨w, hw, rfl⟩ := Option.map_eq_some_iff.mp h
      exact Or.inr ⟨.wait, hw⟩
  | write =>
      obtain ⟨w, hw, rfl⟩ := Option.map_eq_some_iff.mp h
      exact Or.inr ⟨.write, hw⟩
  | joinWriter =>
      simp only [step] at h
      split_ifs at h
      obtain ⟨w, hw, rfl⟩ := Option.map_eq_some_iff.mp h
      exact Or.inr ⟨.join, hw⟩

/-- **The writer of the program is a writer.** -/
lemma writer_of_run (hrun : Machine.run (step pb write) (start started storage) actions = some s) :
    ∃ acts, Machine.run (LogWriterSystem.step write) (LogWriterSystem.start storage) acts =
      some s.writer := by
  have hstep : ∀ (s : LoggerSystem σ) a s',
      (∃ acts, Machine.run (LogWriterSystem.step write) (LogWriterSystem.start storage) acts =
        some s.writer) → s.step pb write a = some s' →
      ∃ acts, Machine.run (LogWriterSystem.step write) (LogWriterSystem.start storage) acts =
        some s'.writer := by
    rintro s a s' ⟨acts, hacts⟩ h
    rcases writer_moves h with hsame | ⟨b, hb⟩
    · exact ⟨acts, hsame ▸ hacts⟩
    · exact ⟨acts ++ [b], Machine.run_append_iff.mpr
        ⟨_, hacts, Machine.run_cons_iff.mpr ⟨_, hb, rfl⟩⟩⟩
  exact Machine.run_invariant_of_step hstep ⟨[], rfl⟩ hrun

/-- A call that returns normally leaves what it leaves. -/
lemma run_writeStep {host : Host} {x y : Storage × World} {requests : List LogRequest}
    (h : Machine.run (LogWriterSystem.storageWrite host) x requests = some y) :
    Machine.run (Storage.writeStep host) x requests = some y := by
  have hstep : ∀ (x : Storage × World) r y, LogWriterSystem.storageWrite host x r = some y →
      (some r).elim (y = x) fun r => Storage.writeStep host x r = some y := by
    intro x r y h
    rw [LogWriterSystem.storageWrite, LogWriterSystem.normally.eq_def] at h
    rw [Option.elim_some, Storage.writeStep]
    split at h
    · rename_i heq
      rw [heq]
      exact h
    · cases h
  have hrun := Machine.run_refines hstep h
  rwa [List.filterMap_some] at hrun

variable {host : Host} {root : Path} {w : World} {max_size : ℤ} {st : Storage × World}
  {t : LoggerSystem (Storage × World)}

/-- **A recording program is a session** of its storage, with the requests of its callbacks. -/
lemma logger_session (hmake : Storage.make root max_size w = some st)
    (hrun : Machine.run (step pb (LogWriterSystem.storageWrite host)) (start started st) actions =
      some t) (hstopped : t.writer.stopped = true) :
    session host root w ⟨max_size, requests pb t.calls⟩ = some
      (t.writer.writer.storage_.1.backend_.destroy host t.writer.writer.storage_.2) := by
  obtain ⟨acts, hacts⟩ := writer_of_run hrun
  have hwritten := run_writeStep (LogWriterSystem.run_written hacts)
  rw [(serves_of_run hrun).written hstopped] at hwritten
  rw [session, hmake, Option.bind_some, hwritten]
  rfl

/-- **From the sockets to the reader.**  A recording program opens a storage root with any content,
serves any number of connections and is destroyed.  What a client of the log finds then under the
root: of each day, one after the other, what was there, unless the program has deleted the day, and
the records of the requests that came to the callback, in payloads that the peers have sent, and
were reported after the day was deleted last.  The answer has all of them, each once, and the
records of one stream are in the order in which the callback was called. -/
theorem logger_found (hn : host.NeverFails) (hplain : root.Plain)
    (hidx : find dotIdx root.string = none)
    (hmono : ∀ s t, s ≤ t → host.cal.Time2YYYYMMDD s ≤ host.cal.Time2YYYYMMDD t)
    (hw : Settled root w) (hmake : Storage.make root max_size w = some st)
    (hrun : Machine.run (step pb (LogWriterSystem.storageWrite host)) (start started st) actions =
      some t) (hstopped : t.writer.stopped = true)
    (hok : Admissible host root w ⟨max_size, requests pb t.calls⟩) (overrun : Path → Bytes)
    (first last : UInt64) :
    let left := t.writer.writer.storage_.1.backend_.destroy host t.writer.writer.storage_.2
    let turns := sessionTurns host root first last w ⟨max_size, requests pb t.calls⟩
    let log := fun day =>
      (if Archive.Spared day turns then foundIn root host.cal (w.asIs overrun) first
        last day else [])
        ++ Archive.survivors day turns
    let days := (left.tree.children root).map Prod.fst
    (∀ i c, t.connections[i]? = some c → payloads i t.calls <+: c.sent) ∧
    ∃ answer, ((StorageScanner.make (left.asIs overrun) root).bind fun s =>
        s.collected host.cal (left.asIs overrun) first last) = some answer ∧
      (answer.flatMap fun x => x.2.map fun d => (x.1.name, d)).Perm (days.flatMap log) ∧
      ∀ x ∈ answer, ∃ day ∈ days, (x.2.map fun d => (x.1.name, d)).Sublist (log day) := by
  intro left turns log days
  obtain ⟨hsettled, hshows⟩ := session_shows hn hplain hidx hmono hw hok
    (logger_session hmake hrun hstopped) (shows_self hw host.cal overrun first last)
  have hlog : Archive.replay (foundIn root host.cal (w.asIs overrun) first last) turns = log :=
    funext fun day => Archive.replay_apply _ turns day
  exact ⟨fun i c hi => (serves_of_run hrun).delivered hi,
    found_of_shows hplain hsettled (hlog ▸ hshows)⟩

/-- Two peers, a channel each. -/
theorem logger_found_two : ∃ st t, Storage.make [ascii "r"] 1000 (.bare [ascii "r"]) = some st ∧
    Machine.run (step .wire (LogWriterSystem.storageWrite .january)) (start true st) twoPeers =
      some t ∧
    let left := t.writer.writer.storage_.1.backend_.destroy .january t.writer.writer.storage_.2
    ∃ answer, ((StorageScanner.make (left.asIs fun _ => []) [ascii "r"]).bind fun s =>
        s.collected Host.january.cal (left.asIs fun _ => []) 1704067200000000000
          1704200000000000000) = some answer ∧
      (answer.flatMap fun x => x.2.map fun d => (x.1.name, d)).Perm
        [(ascii "a", ⟨1704067200000000000, ascii "xy", 0⟩),
          (ascii "b", ⟨1704067200000000000, ascii "z", 0⟩)] := by
  obtain ⟨hplain, hidx⟩ : Path.Plain [ascii "r"] ∧
    find dotIdx (Path.string [ascii "r"]) = none := by
    decide +kernel
  obtain ⟨st, hmake⟩ : ∃ st, Storage.make [ascii "r"] 1000 (.bare [ascii "r"]) = some st :=
    Option.isSome_iff_exists.mp (by decide +kernel)
  have hfacts : ∀ st ∈ Storage.make [ascii "r"] 1000 (.bare [ascii "r"]),
      ∃ t ∈ Machine.run (step .wire (LogWriterSystem.storageWrite .january)) (start true st)
          twoPeers,
        t.writer.stopped = true ∧ t.calls = twoPeersCalls ∧
          ((t.writer.writer.storage_.1.backend_.destroy .january
            t.writer.writer.storage_.2).tree.children [ascii "r"]).map Prod.fst =
            [ascii "20240101"] := by
    decide +kernel
  obtain ⟨t, hrun, hstopped, hcalls, hdays⟩ := hfacts st hmake
  have hok : Admissible .january [ascii "r"] (.bare [ascii "r"])
      ⟨1000, requests .wire twoPeersCalls⟩ := by decide +kernel
  obtain ⟨-, answer, hanswer, hall, -⟩ := logger_found Host.neverFails_january hplain hidx
    january_mono (settled_of_empty emptyRoot_bare) hmake hrun hstopped
      (hcalls ▸ hok) (fun _ => [])
    1704067200000000000 1704200000000000000
  rw [hdays, hcalls, List.flatMap_singleton] at hall
  have hlog : ((if Archive.Spared (ascii "20240101") (sessionTurns .january [ascii "r"]
        1704067200000000000 1704200000000000000 (.bare [ascii "r"])
        ⟨1000, requests .wire twoPeersCalls⟩) then
      foundIn [ascii "r"] Host.january.cal ((World.bare [ascii "r"]).asIs fun _ => [])
        1704067200000000000 1704200000000000000 (ascii "20240101") else []) ++
      Archive.survivors (ascii "20240101") (sessionTurns .january [ascii "r"]
        1704067200000000000 1704200000000000000 (.bare [ascii "r"])
        ⟨1000, requests .wire twoPeersCalls⟩)) =
      [(ascii "a", ⟨1704067200000000000, ascii "xy", 0⟩),
        (ascii "b", ⟨1704067200000000000, ascii "z", 0⟩)] := by
    decide +kernel
  exact ⟨st, t, hmake, hrun, answer, hanswer, hlog ▸ hall⟩

end LoggerSystem

end Tracebox
