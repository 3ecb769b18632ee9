import Tracebox.Net.TcpSocket

/-!
# A connection of the server

The receiving side of one connection: `Server::run` waits until a byte is readable and then calls
`handleLogRequest`, which reads a frame and passes its payload to the callback.  The socket is
non-blocking, so a `recv` call without a byte to read fails.

The model takes one step for each thing that can happen in between: the peer sends a frame, some
bytes arrive, the event loop wakes up, a `recv` call returns.  Bytes may arrive at any moment, also
between two `recv` calls of one frame.

* `frames_received` — **the payloads passed to the callback are always a beginning of the payloads
  sent**, and the connection stays open exactly as long as no `recv` call finds an empty buffer.
* `fragment_closes` — a frame that arrives in two pieces closes the connection.
-/

namespace Tracebox

open Bytes

/-- One connection, as the server and the network see it. -/
structure Connection where
  /-- the payloads the peer has given to `sendData` -/
  sent : List Bytes := []
  /-- bytes on their way -/
  in_flight : Bytes := []
  /-- bytes in the receive buffer of the socket -/
  readable : Bytes := []
  /-- the `handleLogRequest` call in progress -/
  reader : Option ReadState := none
  /-- the payloads passed to the callback -/
  delivered : List Bytes := []
  /-- the descriptor is registered -/
  registered : Bool := true
  deriving DecidableEq

namespace Connection

/-- What can happen on a connection that the peer keeps open. -/
inductive Event where
  /-- the peer sends a non-empty payload -/
  | send (payload : Bytes)
  /-- the next `n` bytes arrive -/
  | arrive (n : ℕ)
  /-- `epoll_wait` reports the descriptor as readable -/
  | wakeup
  /-- `recv` returns `n` bytes, or fails when there are none -/
  | recv (n : ℕ)
  /-- `recv` is interrupted -/
  | interrupt
  deriving DecidableEq, Repr

/-- The end of `handleLogRequest`: an empty string means a failed read, and the event loop drops the
connection.  Otherwise the callback gets the payload. -/
def handleLogRequest (c : Connection) (buffer : Bytes) : Connection :=
  if buffer = [] then { c with reader := none, registered := false }
  else { c with reader := none, delivered := c.delivered ++ [buffer] }

/-- The reader goes on or returns. -/
def advance (c : Connection) : ReadStep → Connection
  | .reading st => { c with reader := some st }
  | .returned buffer => c.handleLogRequest buffer

/-- One step; none when the event is not possible. -/
def step (c : Connection) : Event → Option Connection
  | .send payload =>
      if payload ≠ [] ∧ Sendable payload then
        some { c with
          sent := c.sent ++ [payload]
          in_flight := c.in_flight ++ frame payload }
      else none
  | .arrive n =>
      if 0 < n ∧ n ≤ c.in_flight.length then
        some { c with
          in_flight := c.in_flight.drop n
          readable := c.readable ++ c.in_flight.take n }
      else none
  | .wakeup =>
      if c.registered = true ∧ c.reader = none ∧ c.readable ≠ [] then
        some { c with reader := some .start }
      else none
  | .recv n =>
      match c.reader with
      | none => none
      | some st =>
          if c.readable = [] then some (c.advance (st.recv .failed))
          else if 0 < n ∧ n ≤ c.readable.length ∧ n ≤ st.wanted then
            some ({ c with readable := c.readable.drop n }.advance
              (st.recv (.got (c.readable.take n))))
          else none
  | .interrupt =>
      match c.reader with
      | none => none
      | some st => some (c.advance (st.recv .interrupted))

/-! ## Every byte is accounted for -/

/-- What was read of the frame in progress. -/
def pending (c : Connection) : Bytes := (c.reader.map ReadState.consumed).getD []

/-- While the connection is registered, the bytes delivered, read, readable and on their way are
the bytes sent. -/
structure Accounted (c : Connection) : Prop where
  sendable : ∀ p ∈ c.sent, p ≠ [] ∧ Sendable p
  delivered : c.delivered <+: c.sent
  bytes : c.registered = true → c.delivered.flatMap frame ++
    (c.pending ++ (c.readable ++ c.in_flight)) = c.sent.flatMap frame
  idle : c.registered = false → c.reader = none

lemma accounted_new : Accounted {} where
  sendable := by simp
  delivered := List.prefix_rfl
  bytes _ := rfl
  idle h := by simp at h

/-- A `recv` call that returns bytes. -/
lemma Accounted.recv {c : Connection} {st : ReadState} {n : ℕ} (h : c.Accounted)
    (hst : c.reader = some st) (h0 : 0 < n) (hn : n ≤ c.readable.length) (hw : n ≤ st.wanted) :
    ({ c with readable := c.readable.drop n }.advance
      (st.recv (.got (c.readable.take n)))).Accounted ∧
    ({ c with readable := c.readable.drop n }.advance
      (st.recv (.got (c.readable.take n)))).registered = true := by
  have hreg : c.registered = true := by
    by_contra hreg
    have := h.idle (by simpa using hreg)
    rw [hst] at this
    cases this
  -- the bytes the call returns move from the receive buffer to the reader
  have hbytes : c.delivered.flatMap frame ++ ((st.consumed ++ c.readable.take n) ++
      (c.readable.drop n ++ c.in_flight)) = c.sent.flatMap frame := by
    rw [← h.bytes hreg, pending, hst, List.append_assoc,
      ← List.append_assoc (c.readable.take n), List.take_append_drop]
    rfl
  have hlen : (c.readable.take n).length = n := List.length_take_of_le hn
  have hne : c.readable.take n ≠ [] := by
    intro hnil
    rw [hnil, List.length_nil] at hlen
    omega
  cases hr : st.recv (.got (c.readable.take n)) with
  | reading st' =>
      have hc := ReadState.recv_reading hne (by omega) hr
      rw [← hc] at hbytes
      exact ⟨⟨h.sendable, h.delivered, fun _ => hbytes, fun hf => by
        change c.registered = false at hf
        rw [hreg] at hf
        cases hf⟩, hreg⟩
  | returned r =>
      obtain ⟨hframe, hsend⟩ := ReadState.recv_returned hne (by omega) hr
      -- the frame that was read is the next one that was sent
      have hstream : (c.delivered ++ [r]).flatMap frame ++
          (c.readable.drop n ++ c.in_flight) = c.sent.flatMap frame ++ [] := by
        rw [List.append_nil, ← hbytes, List.flatMap_append, List.flatMap_singleton, hframe,
          List.append_assoc]
      have hall : ∀ p ∈ c.delivered ++ [r], Sendable p := by
        intro p hp
        rcases List.mem_append.mp hp with hp | hp
        · exact (h.sendable p (h.delivered.subset hp)).2
        · rw [List.mem_singleton.mp hp]
          exact hsend
      have hpre := prefixFree_frame.prefix_of_flatMap_append hall (fun p hp => (h.sendable p hp).2)
        prefixFree_frame.open_nil hstream
      have hne' : r ≠ [] := (h.sendable r (hpre.subset (by simp))).1
      simp only [advance, handleLogRequest, hne', if_false]
      refine ⟨⟨h.sendable, hpre, fun _ => ?_, fun _ => rfl⟩, hreg⟩
      simpa [pending] using hstream

/-- A `recv` call without a byte to read drops the connection. -/
lemma Accounted.drop {c : Connection} (h : c.Accounted) :
    (c.handleLogRequest []).Accounted ∧ (c.handleLogRequest []).registered = false :=
  ⟨⟨h.sendable, h.delivered, fun hf => by simp [handleLogRequest] at hf, fun _ => rfl⟩, rfl⟩

/-- The `recv` call finds a byte. -/
def FindsByte (c : Connection) (e : Event) : Prop := ∀ n, e = .recv n → c.readable ≠ []

instance (c : Connection) (e : Event) : Decidable (c.FindsByte e) :=
  match e with
  | .recv _ => decidable_of_iff (c.readable ≠ []) ⟨fun h _ _ => h, fun h => h _ rfl⟩
  | .send _ | .arrive _ | .wakeup | .interrupt => isTrue fun _ h => by cases h

/-- **One step** keeps the account, and drops the connection exactly when `recv` finds no byte. -/
lemma step_accounted {c c' : Connection} {e : Event} (h : c.Accounted)
    (hstep : c.step e = some c') :
    c'.Accounted ∧ (c'.registered = true ↔ c.registered = true ∧ c.FindsByte e) := by
  cases e with
  | send payload =>
      simp only [step] at hstep
      split_ifs at hstep with hp
      cases hstep
      refine ⟨⟨?_, h.delivered.trans (List.prefix_append _ _), fun hreg => ?_, h.idle⟩, ?_⟩
      · intro p hmem
        rcases List.mem_append.mp hmem with hmem | hmem
        · exact h.sendable p hmem
        · rw [List.mem_singleton.mp hmem]
          exact hp
      · rw [List.flatMap_append, List.flatMap_singleton, ← h.bytes hreg]
        simp [pending]
      · simp [FindsByte]
  | arrive n =>
      simp only [step] at hstep
      split_ifs at hstep with hn
      cases hstep
      refine ⟨⟨h.sendable, h.delivered, fun hreg => ?_, h.idle⟩, by simp [FindsByte]⟩
      rw [← h.bytes hreg]
      simp only [pending, List.append_assoc, List.take_append_drop]
  | wakeup =>
      simp only [step] at hstep
      split_ifs at hstep with hw
      cases hstep
      obtain ⟨hreg, hidle, -⟩ := hw
      refine ⟨⟨h.sendable, h.delivered, fun _ => ?_, fun hf => ?_⟩, by simp [FindsByte]⟩
      · rw [← h.bytes hreg]
        simp [pending, hidle]
      · rw [hreg] at hf
        cases hf
  | recv n =>
      simp only [step] at hstep
      split at hstep
      · cases hstep
      · rename_i st hst
        split_ifs at hstep with hempty hn
        · cases hstep
          obtain ⟨hacc, hdrop⟩ := h.drop
          exact ⟨hacc, by simp [advance, ReadState.recv, hdrop, FindsByte, hempty]⟩
        · cases hstep
          obtain ⟨hacc, hreg⟩ := h.recv hst hn.1 hn.2.1 hn.2.2
          refine ⟨hacc, iff_of_true hreg ⟨?_, fun _ _ => hempty⟩⟩
          by_contra hf
          have := h.idle (by simpa using hf)
          rw [hst] at this
          cases this
  | interrupt =>
      simp only [step] at hstep
      split at hstep
      · cases hstep
      · rename_i st hst
        cases hstep
        have hsame : { c with reader := some st } = c := by rw [← hst]
        simp only [advance, ReadState.recv, hsame]
        exact ⟨h, by simp [FindsByte]⟩

/-- A whole run, from any accounted connection. -/
lemma run_accounted {events : List Event} {c₀ c : Connection} (h₀ : c₀.Accounted)
    (hrun : Machine.run step c₀ events = some c) :
    c.Accounted ∧ (c.registered = true ↔
      c₀.registered = true ∧ Machine.Throughout step FindsByte c₀ events) := by
  induction events generalizing c₀ with
  | nil =>
      cases hrun
      exact ⟨h₀, by simp [Machine.Throughout]⟩
  | cons e events ih =>
      obtain ⟨c₁, hstep, hrest⟩ := Machine.run_cons_iff.mp hrun
      obtain ⟨h₁, hreg₁⟩ := step_accounted h₀ hstep
      obtain ⟨hacc, hiff⟩ := ih h₁ hrest
      refine ⟨hacc, ?_⟩
      rw [hiff, hreg₁, Machine.throughout_cons_iff hstep, and_assoc]

/-- **Frame reception under fragmentation.**  For every sequence of events on a fresh connection,
the payloads passed to the callback are a beginning of the payloads sent, in the order they were
sent; and the server has kept the connection if and only if each of its `recv` calls found at least
one byte. -/
theorem frames_received {events : List Event} {c : Connection}
    (hrun : Machine.run step {} events = some c) :
    c.delivered <+: c.sent ∧
      (c.registered = true ↔ Machine.Throughout step FindsByte {} events) := by
  obtain ⟨hacc, hiff⟩ := run_accounted accounted_new hrun
  exact ⟨hacc.delivered, hiff.trans (and_iff_right rfl)⟩

/-- Two frames in three pieces.  The second frame is read while its end is still on its way, and its
last byte arrives in time. -/
def timely : List Event :=
  [.send [7], .send [8, 9], .arrive 5, .wakeup, .recv 4, .recv 1, .arrive 5, .wakeup, .recv 4,
    .recv 1, .arrive 1, .recv 1]

/-- Each byte has arrived before it is read. -/
theorem frames_received_timely : ∃ c, Machine.run step {} timely = some c ∧
    c.delivered = [[7], [8, 9]] ∧ c.delivered <+: c.sent ∧ c.registered = true := by
  have hrun : Machine.run step {} timely = some
    ⟨[[7], [8, 9]], [], [], none, [[7], [8, 9]], true⟩ := by
    decide +kernel
  obtain ⟨hpre, hiff⟩ := frames_received hrun
  exact ⟨_, hrun, rfl, hpre, hiff.mpr (by decide +kernel)⟩

/-- The peer sends one frame of six bytes, and the event loop wakes up when the first five are
there.  The third `recv` call finds none, and the server drops a connection whose peer has sent
nothing but a well-formed frame. -/
theorem fragment_closes :
    Machine.run step {} [.send [8, 9], .arrive 5, .wakeup, .recv 4, .recv 1, .recv 1] =
      some ⟨[[8, 9]], [9], [], none, [], false⟩ := by
  decide +kernel

end Connection

end Tracebox
