import Tracebox.Net.TcpSocket

/-!
# Sends that fail half way

One direction of a connection.  The sending side makes one `sendData` call after the other on the
same descriptor, whatever the calls before came to: `LogClient::logData` hands the result to a
caller that keeps the client, and `Server::handleLogRequest` does not look at it.  The receiving
side calls `readData` over and over.  The server drops the connection when a read fails; the client
goes on with the next call.

A send that fails after part of its frame tears the stream: the size in front of the torn frame
covers bytes of the frames behind it.

* `no_forged_frames` — **as long as no send follows a torn one and no reader goes on in the middle
  of a frame**, every payload that is read is one that was sent.
* `torn_send_forges` — one torn frame and one whole frame behind it give a payload nobody sent.
-/

namespace Tracebox

open Bytes

/-- One direction of a connection. -/
structure Link where
  /-- the payloads given to `sendData` -/
  given : List Bytes := []
  /-- bytes that were accepted and not yet read -/
  wire : Bytes := []
  /-- a send has failed after part of its frame -/
  torn : Bool := false
  reader : ReadState := .start
  /-- the payloads `readData` has returned; the empty string stands for a failed read -/
  returned : List Bytes := []
  /-- the receiving side has not dropped the connection -/
  connected : Bool := true
  deriving DecidableEq

namespace Link

/-- What happens on a link. -/
inductive Action where
  /-- a `sendData` call, with what its `send` calls come to -/
  | send (data : Bytes) (script : List SendCall)
  /-- `recv` returns `n` bytes -/
  | recv (n : ℕ)
  /-- `recv` fails: a timeout, or no byte on a non-blocking socket -/
  | giveUp
  deriving DecidableEq, Repr

/-- The receiving side has a `readData` result in hand.  After a failed read the server drops the
connection, the client keeps it. -/
def take (drops : Bool) (l : Link) (result : Bytes) : Link :=
  if result = [] then { l with
    reader := .start
    connected := !drops }
  else { l with
    reader := .start
    returned := l.returned ++ [result] }

/-- The reader goes on, or a frame is complete and goes to the caller. -/
def advance (drops : Bool) (l : Link) : ReadStep → Link
  | .reading st => { l with reader := st }
  | .returned result => l.take drops result

/-- One step; `drops` says whether the receiving side is the server. -/
def step (drops : Bool) (l : Link) : Action → Option Link
  | .send data script => (sendDataWith data script).map fun r =>
      { l with
        given := l.given ++ [data]
        wire := l.wire ++ r.2
        torn := l.torn || (!r.1 && !r.2.isEmpty) }
  | .recv n =>
      if l.connected = true ∧ 0 < n ∧ n ≤ l.wire.length ∧ n ≤ l.reader.wanted then
        some ({ l with wire := l.wire.drop n }.advance drops
          (l.reader.recv (.got (l.wire.take n))))
      else none
  | .giveUp =>
      if l.connected = true then some (l.advance drops (l.reader.recv .failed)) else none

/-- The call does not build on a broken frame: no torn frame lies on the wire in front of a send,
and a reader that goes on after a failed read has not begun a frame. -/
def Orderly (drops : Bool) (l : Link) : Action → Prop
  | .send _ _ => l.torn = false
  | .recv _ => True
  | .giveUp => drops = true ∨ l.reader = .start

instance (drops : Bool) (l : Link) (a : Action) : Decidable (Orderly drops l a) :=
  match a with
  | .send _ _ => inferInstanceAs (Decidable (_ = _))
  | .recv _ => isTrue trivial
  | .giveUp => inferInstanceAs (Decidable (_ ∨ _))

/-- What went over the wire is whole frames of given payloads, then at most one torn frame; the
reader is somewhere in it. -/
structure Intact (l : Link) (whole : List Bytes) (tail : Bytes) : Prop where
  given : ∀ p ∈ whole, p ∈ l.given ∧ Sendable p
  tail_open : PrefixFree.Open frame Sendable tail
  tail_nil : l.torn = false → tail = []
  returned : ∀ r ∈ l.returned, r ∈ l.given
  bytes : l.connected = true → ∃ read : List Bytes, (∀ p ∈ read, Sendable p) ∧
    read.flatMap frame ++ (l.reader.consumed ++ l.wire) = whole.flatMap frame ++ tail

lemma intact_new : Intact {} [] [] where
  given := by simp
  tail_open := prefixFree_frame.open_nil
  tail_nil _ := rfl
  returned := by simp
  bytes _ := ⟨[], by simp, rfl⟩

/-- A send behind whole frames. -/
lemma Intact.send {l : Link} {whole : List Bytes} {tail : Bytes} (h : l.Intact whole tail)
    (htorn : l.torn = false) {data bytes : Bytes} {script : List SendCall} {ok : Bool}
    (hs : sendDataWith data script = some (ok, bytes)) :
    ∃ whole' tail', Intact { l with
      given := l.given ++ [data]
      wire := l.wire ++ bytes
      torn := l.torn || (!ok && !bytes.isEmpty) } whole' tail' := by
  obtain ⟨hp, hok, hsend⟩ := sendDataWith_prefix hs
  obtain rfl := h.tail_nil htorn
  have hold : ∀ p ∈ whole, p ∈ l.given ++ [data] ∧ Sendable p := fun p hp =>
    ⟨List.mem_append_left _ (h.given p hp).1, (h.given p hp).2⟩
  have hret : ∀ r ∈ l.returned, r ∈ l.given ++ [data] := fun r hr =>
    List.mem_append_left _ (h.returned r hr)
  have hbytes : ∀ (whole' : List Bytes) (tail' : Bytes),
      whole'.flatMap frame ++ tail' = whole.flatMap frame ++ bytes →
      l.connected = true → ∃ read : List Bytes, (∀ p ∈ read, Sendable p) ∧
        read.flatMap frame ++ (l.reader.consumed ++ (l.wire ++ bytes)) =
          whole'.flatMap frame ++ tail' := by
    intro whole' tail' heq hc
    obtain ⟨read, hread, hb⟩ := h.bytes hc
    rw [List.append_nil] at hb
    exact ⟨read, hread, by rw [heq, ← hb]; simp⟩
  by_cases hnil : bytes = []
  · -- nothing was accepted
    subst hnil
    exact ⟨whole, [], hold, h.tail_open, fun _ => rfl, hret, hbytes whole [] (by simp)⟩
  · have hdata : Sendable data := hsend hnil
    by_cases hwhole : bytes = frame data
    · refine ⟨whole ++ [data], [], ?_, h.tail_open, fun _ => rfl, hret,
        hbytes _ _ (by simp [hwhole])⟩
      intro p hmem
      rcases List.mem_append.mp hmem with hmem | hmem
      · exact hold p hmem
      · rw [List.mem_singleton.mp hmem]
        exact ⟨List.mem_append_right _ (List.mem_singleton_self _), hdata⟩
    · -- the frame is torn
      refine ⟨whole, bytes, hold, prefixFree_frame.open_of_prefix hdata hp hwhole, fun ht => ?_,
        hret, hbytes whole bytes rfl⟩
      have hfail : ok = false := by
        by_contra hf
        exact hwhole (hok.mp (by simpa using hf))
      simp [hfail, hnil] at ht

/-- A `recv` call that returns bytes. -/
lemma Intact.recv {drops : Bool} {l : Link} {whole : List Bytes} {tail : Bytes}
    (h : l.Intact whole tail) (hc : l.connected = true) {n : ℕ} (h0 : 0 < n)
    (hn : n ≤ l.wire.length) (hw : n ≤ l.reader.wanted) :
    ({ l with wire := l.wire.drop n }.advance drops
      (l.reader.recv (.got (l.wire.take n)))).Intact whole tail := by
  obtain ⟨read, hread, hb⟩ := h.bytes hc
  have hbytes : read.flatMap frame ++ ((l.reader.consumed ++ l.wire.take n) ++ l.wire.drop n) =
      whole.flatMap frame ++ tail := by
    rw [List.append_assoc, List.take_append_drop, hb]
  have hlen : (l.wire.take n).length = n := List.length_take_of_le hn
  have hne : l.wire.take n ≠ [] := by
    intro hnil
    rw [hnil, List.length_nil] at hlen
    omega
  cases hr : l.reader.recv (.got (l.wire.take n)) with
  | reading st =>
      have hcons := ReadState.recv_reading hne (by omega) hr
      rw [← hcons] at hbytes
      exact ⟨h.given, h.tail_open, h.tail_nil, h.returned, fun _ => ⟨read, hread, hbytes⟩⟩
  | returned r =>
      obtain ⟨hframe, hsend⟩ := ReadState.recv_returned hne (by omega) hr
      have hstream : (read ++ [r]).flatMap frame ++ l.wire.drop n =
          whole.flatMap frame ++ tail := by
        rw [← hbytes, List.flatMap_append, List.flatMap_singleton, hframe, List.append_assoc]
      have hall : ∀ p ∈ read ++ [r], Sendable p := by
        intro p hp
        rcases List.mem_append.mp hp with hp | hp
        · exact hread p hp
        · rw [List.mem_singleton.mp hp]
          exact hsend
      have hpre := prefixFree_frame.prefix_of_flatMap_append hall (fun p hp => (h.given p hp).2)
        h.tail_open hstream
      have hgiven : r ∈ l.given := (h.given r (hpre.subset (by simp))).1
      simp only [advance, take]
      split_ifs
      · exact ⟨h.given, h.tail_open, h.tail_nil, h.returned, fun _ => ⟨_, hall, hstream⟩⟩
      · refine ⟨h.given, h.tail_open, h.tail_nil, fun x hx => ?_, fun _ =>
          ⟨_, hall, hstream⟩⟩
        rcases List.mem_append.mp hx with hx | hx
        · exact h.returned x hx
        · rw [List.mem_singleton.mp hx]
          exact hgiven

/-- **One orderly step** keeps the stream intact. -/
lemma step_intact {drops : Bool} {l l' : Link} {a : Action} {whole : List Bytes} {tail : Bytes}
    (h : l.Intact whole tail) (ho : Orderly drops l a) (hstep : l.step drops a = some l') :
    ∃ whole' tail', l'.Intact whole' tail' := by
  cases a with
  | send data script =>
      obtain ⟨⟨ok, bytes⟩, hs, rfl⟩ := Option.map_eq_some_iff.mp hstep
      exact h.send ho hs
  | recv n =>
      simp only [step] at hstep
      split_ifs at hstep with hn
      cases hstep
      exact ⟨whole, tail, h.recv hn.1 hn.2.1 hn.2.2.1 hn.2.2.2⟩
  | giveUp =>
      simp only [step] at hstep
      split_ifs at hstep with hc
      cases hstep
      refine ⟨whole, tail, h.given, h.tail_open, h.tail_nil, h.returned, fun hc' => ?_⟩
      -- only a client is still connected, and it had not begun a frame
      rcases ho with hd | hstart
      · simp [advance, ReadState.recv, take, hd] at hc'
      · obtain ⟨read, hread, hb⟩ := h.bytes hc
        rw [hstart] at hb
        exact ⟨read, hread, hb⟩

/-- **No forged frames.**  In every run of sends and reads that is orderly at every step, every
payload the receiving side has read is one that was given to `sendData`. -/
theorem no_forged_frames {drops : Bool} {actions : List Action} {l : Link}
    (horderly : Machine.Throughout (step drops) (Orderly drops) {} actions)
    (hrun : Machine.run (step drops) {} actions = some l) :
    ∀ r ∈ l.returned, r ∈ l.given := by
  have hstep : ∀ (l : Link) (a : Action) (l' : Link), (∃ whole tail, l.Intact whole tail) →
      Orderly drops l a → l.step drops a = some l' → ∃ whole tail, l'.Intact whole tail :=
    fun _ _ _ ⟨_, _, h⟩ ho hs => step_intact h ho hs
  obtain ⟨whole, tail, h⟩ := Machine.run_invariant hstep ⟨[], [], intact_new⟩ horderly hrun
  exact h.returned

/-- Two whole frames, a send that is refused before its first byte, and a torn frame at the end. -/
def orderlyActions : List Action :=
  [.send [7] [.sent 3, .interrupted, .sent 2], .send [8] [.failed], .recv 4, .recv 1, .giveUp,
    .send [9, 9] [.sent 6], .recv 4, .recv 2, .send [5, 6] [.sent 5, .failed], .recv 4, .recv 1]

/-- A `sendData` fails in the middle of a frame, and the reader waits for the rest of it. -/
theorem no_forged_frames_orderly : ∃ l, Machine.run (step false) {} orderlyActions = some l ∧
    l.returned = [[7], [9, 9]] ∧ ∀ r ∈ l.returned, r ∈ l.given := by
  have hrun : Machine.run (step false) {} orderlyActions = some
      ⟨[[7], [8], [9, 9], [5, 6]], [], true, .payload 2 [5] (by decide),
        [[7], [9, 9]], true⟩ := by
    decide +kernel
  have horderly : Machine.Throughout (step false) (Orderly false) {} orderlyActions := by
    decide +kernel
  exact ⟨_, hrun, rfl, no_forged_frames horderly hrun⟩

/-- A frame of six bytes payload is torn after its first byte, and the next frame is sent behind
it.  The receiving server reads a payload made of both. -/
theorem torn_send_forges :
    Machine.run (step true) {} [.send [1, 2, 3, 4, 5, 6] [.sent 5, .failed], .send [7] [.sent 5],
      .recv 4, .recv 6] = some ⟨[[1, 2, 3, 4, 5, 6], [7]], [], true, .start,
        [[1, 1, 0, 0, 0, 7]], true⟩ := by
  decide +kernel

end Link

end Tracebox
