import Tracebox.Net.TcpSocket
import Tracebox.Reader.StorageScanner

/-!
# `LogReadClient` and `LogReader`

A client sends a request and waits for the response on the same connection.  Requests carry no
number, an empty response is not sent at all, and a call whose receive times out returns and leaves
the connection as it is.  A response that comes later is then still there when the next call reads.

The messages are protobuf messages; how they are serialized is a parameter (`Codec`).

* `responses_correlated` — **as long as every call finds the connection quiet**, with no request
  unanswered and no byte of a response unread, whatever non-empty response a call returns is the one
  the server computed for that call.
* `late_response_misleads` — a call that times out, and a second one that returns the response to
  the first.
-/

namespace Tracebox

open Bytes

/-- `DataStreamsRequest` of `logger.proto` -/
structure DataStreamsRequest where
  start_ns : Option UInt64 := none
  end_ns : Option UInt64 := none
  file : Option Bytes := none
  start_idx : Option UInt32 := none
  max_count : Option UInt32 := none
  deriving DecidableEq

/-- The protobuf wire format of a message type.  `parse` also says what a message holds after bytes
that are no message. -/
structure Codec (M : Type) where
  serialize : M → Bytes
  parse : Bytes → Bool × M

/-! ## The server -/

/-- `LogReader`: the scanner it asks, and the time zone it runs in. -/
structure LogReader where
  scanner_ : StorageScanner
  cal : Calendar
  requests : Codec DataStreamsRequest
  responses : Codec DataStreamsResponse

namespace LogReader

/-- The response to a request; none when the scanner throws. -/
def respond (reader : LogReader) (v : View) (request : DataStreamsRequest) :
    Option DataStreamsResponse :=
  match request.file with
  | some file => some (reader.scanner_.getData v file (request.start_ns.getD 0)
      (request.end_ns.getD 0) (request.start_idx.getD 0) (request.max_count.getD 0))
  | none => reader.scanner_.getStreams reader.cal v (request.start_ns.getD 0)
      (request.end_ns.getD 0)

/-- What comes of the bytes of a request: nothing when they cannot be parsed. -/
def answer (reader : LogReader) (v : View) (data : Bytes) : Option (Option DataStreamsResponse) :=
  if (reader.requests.parse data).1 then some (reader.respond v (reader.requests.parse data).2)
  else none

/-- The callback of the server; none when it throws. -/
def handleReadingRequest (reader : LogReader) (v : View) (data : Bytes) : Option Bytes :=
  match reader.answer v data with
  | none => some []
  | some none => none
  | some (some response) => some (reader.responses.serialize response)

end LogReader

/-! ## The client -/

namespace LogReadClient

/-- The request of `getStreams`. -/
def getStreams (start end_ : UInt64) (start_idx : UInt32 := 0) (max_size : UInt32 := 4294967295) :
    DataStreamsRequest :=
  ⟨some start, some end_, none, some start_idx, some max_size⟩

/-- The request of `getData`. -/
def getData (file : Bytes) (start end_ : UInt64) (start_idx : UInt32 := 0)
    (max_size : UInt32 := 4294967295) : DataStreamsRequest :=
  ⟨some start, some end_, some file, some start_idx, some max_size⟩

end LogReadClient

/-- One connection between a `LogReadClient` and a `LogReader`.  Calls are numbered in the order
they are made; the numbers do not travel. -/
structure Session where
  /-- calls made so far -/
  calls : ℕ := 0
  /-- requests the server has not handled yet -/
  requests : List (ℕ × Bytes) := []
  /-- responses the server has computed -/
  answered : List (ℕ × DataStreamsResponse) := []
  /-- bytes of responses on their way -/
  in_flight : Bytes := []
  /-- bytes in the client's receive buffer -/
  readable : Bytes := []
  /-- the call in progress -/
  client : Option (ℕ × ReadState) := none
  /-- what the calls have returned -/
  results : List (ℕ × DataStreamsResponse) := []
  /-- the server has not dropped the connection -/
  connected : Bool := true
  deriving DecidableEq

namespace Session

/-- What happens in a session. -/
inductive Action where
  /-- the client calls `getStreams` or `getData` -/
  | call (request : DataStreamsRequest)
  /-- the server handles the next request, with the storage as it is then -/
  | serve (v : View)
  /-- the next `n` bytes arrive at the client -/
  | arrive (n : ℕ)
  /-- `recv` returns `n` bytes to the client -/
  | recv (n : ℕ)
  /-- `recv` times out, or reports the end of the stream, with nothing to read -/
  | timeout

/-- The end of `getResponse`: the bytes `readData` returned become the result.  When they cannot be
parsed the result is returned all the same. -/
def finish (reader : LogReader) (s : Session) (i : ℕ) (response : Bytes) : Session :=
  { s with
    client := none
    results := s.results ++
      [(i, if response = [] then {} else (reader.responses.parse response).2)] }

/-- The client reads on, or its call comes to an end with the response. -/
def advance (reader : LogReader) (s : Session) (i : ℕ) : ReadStep → Session
  | .reading st => { s with client := some (i, st) }
  | .returned response => s.finish reader i response

/-- The bytes the server sends for a result of its callback. -/
def reply (result : Bytes) : Bytes :=
  if result ≠ [] ∧ Sendable result then frame result else []

/-- `Server::handleLogRequest` with the bytes of one request. -/
def handle (reader : LogReader) (v : View) (s : Session) (i : ℕ) (data : Bytes) : Session :=
  if data = [] then { s with connected := false }
  else match reader.handleReadingRequest v data with
    | none => { s with connected := false }
    | some result =>
        { s with
          in_flight := s.in_flight ++ reply result
          answered := s.answered ++ (reader.answer v data).join.toList.map fun r => (i, r) }

/-- One step; none when the action is not possible. -/
def step (reader : LogReader) (s : Session) : Action → Option Session
  | .call request =>
      if s.client.isSome then none
      else
        let serialized := reader.requests.serialize request
        if Sendable serialized then
          some { s with
            calls := s.calls + 1
            requests := s.requests ++ [(s.calls, serialized)]
            client := some (s.calls, .start) }
        else some ({ s with calls := s.calls + 1 }.finish reader s.calls [])
  | .serve v =>
      match s.requests with
      | [] => none
      | (i, data) :: rest =>
          if s.connected then some ({ s with requests := rest }.handle reader v i data) else none
  | .arrive n =>
      if 0 < n ∧ n ≤ s.in_flight.length then
        some { s with
          in_flight := s.in_flight.drop n
          readable := s.readable ++ s.in_flight.take n }
      else none
  | .recv n =>
      match s.client with
      | none => none
      | some (i, st) =>
          if 0 < n ∧ n ≤ s.readable.length ∧ n ≤ st.wanted then
            some ({ s with readable := s.readable.drop n }.advance reader i
              (st.recv (.got (s.readable.take n))))
          else none
  | .timeout =>
      match s.client with
      | none => none
      | some (i, st) =>
          if s.readable = [] then some (s.advance reader i (st.recv .failed)) else none

/-- Nothing of an earlier call is outstanding when a call is made. -/
def Quiet (s : Session) : Action → Prop
  | .call _ => s.requests = [] ∧ s.in_flight = [] ∧ s.readable = []
  | _ => True

instance (s : Session) (a : Action) : Decidable (s.Quiet a) :=
  match a with
  | .call _ => inferInstanceAs (Decidable (_ ∧ _ ∧ _))
  | .serve _ | .arrive _ | .recv _ | .timeout => isTrue trivial

/-! ## At most one call is outstanding -/

/-- How far the call in progress has come: the request is unanswered, or nothing will come, or its
response is on its way. -/
inductive Stage (reader : LogReader) (s : Session) (i : ℕ) (st : ReadState) : Prop where
  | asked (data : Bytes) (h : s.requests = [(i, data)]) (hs : st = .start)
      (hr : s.readable = []) (hf : s.in_flight = [])
  | silent (h : s.requests = []) (hs : st = .start) (hr : s.readable = []) (hf : s.in_flight = [])
  | answered (response : DataStreamsResponse) (h : s.requests = [])
      (hmem : (i, response) ∈ s.answered) (hsend : Sendable (reader.responses.serialize response))
      (hbytes : st.consumed ++ (s.readable ++ s.in_flight) =
        frame (reader.responses.serialize response))

/-- A non-empty result is what parsing the response of the same call gives. -/
def Matched (reader : LogReader) (s : Session) : Prop :=
  ∀ e ∈ s.results, e.2 ≠ {} → ∃ response, (e.1, response) ∈ s.answered ∧
    e.2 = (reader.responses.parse (reader.responses.serialize response)).2

/-- Results and the call in progress belong to the server's responses. -/
structure Correlated (reader : LogReader) (s : Session) : Prop where
  results : s.Matched reader
  client : ∀ i st, s.client = some (i, st) → Stage reader s i st

variable {reader : LogReader} {s : Session}

/-- A call that comes to its end. -/
lemma Matched.finish (h : s.Matched reader) {i : ℕ} {response : Bytes}
    (hr : response ≠ [] → ∃ r, (i, r) ∈ s.answered ∧
      response = reader.responses.serialize r) :
    (s.finish reader i response).Correlated reader where
  results e he hne := by
    rcases List.mem_append.mp he with he | he
    · exact h e he hne
    · rw [List.mem_singleton] at he
      subst he
      by_cases hnil : response = []
      · simp [hnil] at hne
      · obtain ⟨r, hmem, rfl⟩ := hr hnil
        exact ⟨r, hmem, if_neg hnil⟩
  client i st hc := by simp [Session.finish] at hc

/-- The server handles a request. -/
lemma Correlated.handle (h : s.Correlated reader) {v : View} {i : ℕ} {data : Bytes}
    {rest : List (ℕ × Bytes)} (hq : s.requests = (i, data) :: rest) :
    ({ s with requests := rest }.handle reader v i data).Correlated reader := by
  -- the only request is that of the call in progress
  have hstage : ∀ j st, s.client = some (j, st) →
      j = i ∧ rest = [] ∧ st = .start ∧ s.readable = [] ∧ s.in_flight = [] := by
    intro j st hc
    cases h.client j st hc with
    | asked d hd hs hr hf =>
        rw [hq] at hd
        simp only [List.cons.injEq, Prod.mk.injEq] at hd
        exact ⟨hd.1.1.symm, hd.2, hs, hr, hf⟩
    | silent hd => rw [hq] at hd; cases hd
    | answered r hd => rw [hq] at hd; cases hd
  have hclosed : ({ s with requests := rest, connected := false } : Session).Correlated reader :=
    ⟨h.results, fun j st hc => by
      obtain ⟨-, hrest, hs, hr, hf⟩ := hstage j st hc
      exact .silent hrest hs hr hf⟩
  unfold Session.handle
  split_ifs with hdata
  · exact hclosed
  · unfold LogReader.handleReadingRequest
    cases ha : reader.answer v data with
    | none =>
        refine ⟨fun e he hne => ?_, fun j st hc => ?_⟩
        · obtain ⟨r, hr, heq⟩ := h.results e he hne
          exact ⟨r, by simpa using hr, heq⟩
        · obtain ⟨-, hrest, hs, hr, hf⟩ := hstage j st hc
          exact .silent hrest hs hr (by simpa [reply] using hf)
    | some o =>
        cases o with
        | none => exact hclosed
        | some response =>
            refine ⟨fun e he hne => ?_, fun j st hc => ?_⟩
            · obtain ⟨r, hr, heq⟩ := h.results e he hne
              exact ⟨r, List.mem_append_left _ hr, heq⟩
            · obtain ⟨rfl, hrest, hs, hr, hf⟩ := hstage j st hc
              by_cases hsend : reader.responses.serialize response ≠ [] ∧
                  Sendable (reader.responses.serialize response)
              · refine .answered response hrest (by simp) hsend.2 ?_
                simp [reply, hsend, hs, hr, hf]
              · exact .silent hrest hs hr (by simp [reply, hsend, hf])

/-- A `recv` call of the client that returns bytes. -/
lemma Correlated.recv (h : s.Correlated reader) {i n : ℕ} {st : ReadState}
    (hc : s.client = some (i, st)) (h0 : 0 < n) (hn : n ≤ s.readable.length)
    (hw : n ≤ st.wanted) :
    ({ s with readable := s.readable.drop n }.advance reader i
      (st.recv (.got (s.readable.take n)))).Correlated reader := by
  have hlen : (s.readable.take n).length = n := List.length_take_of_le hn
  have hne : s.readable.take n ≠ [] := by
    intro hnil
    rw [hnil, List.length_nil] at hlen
    omega
  have hsome : s.readable ≠ [] := by
    intro hnil
    rw [hnil, List.length_nil] at hn
    omega
  cases h.client i st hc with
  | asked d hd hs hr hf => exact absurd hr hsome
  | silent hd hs hr hf => exact absurd hr hsome
  | answered response hq hmem hsend hbytes =>
      have hsplit : (st.consumed ++ s.readable.take n) ++ (s.readable.drop n ++ s.in_flight) =
          frame (reader.responses.serialize response) := by
        rw [← hbytes, List.append_assoc, ← List.append_assoc (s.readable.take n),
          List.take_append_drop]
      cases hr : st.recv (.got (s.readable.take n)) with
      | reading st' =>
          have hcons := ReadState.recv_reading hne (by omega) hr
          refine ⟨h.results, fun j st'' hc' => ?_⟩
          simp only [advance, Option.some.injEq, Prod.mk.injEq] at hc'
          obtain ⟨rfl, rfl⟩ := hc'
          exact .answered response hq hmem hsend (by rw [hcons]; exact hsplit)
      | returned r =>
          obtain ⟨hframe, hr'⟩ := ReadState.recv_returned hne (by omega) hr
          rw [← hframe] at hsplit
          obtain ⟨rfl, -⟩ := prefixFree_frame.cons (y := []) hr' hsend (by simpa using hsplit)
          exact Matched.finish (s := { s with readable := s.readable.drop n }) h.results
            fun _ => ⟨response, hmem, rfl⟩

/-- **One step** on a connection that is quiet when a call is made. -/
lemma step_correlated {s' : Session} {a : Action} (h : s.Correlated reader) (hq : s.Quiet a)
    (hstep : s.step reader a = some s') : s'.Correlated reader := by
  cases a with
  | call request =>
      obtain ⟨hreq, hflight, hread⟩ := hq
      simp only [step] at hstep
      split_ifs at hstep with hbusy hsend
      · cases hstep
        refine ⟨h.results, fun i st hc => ?_⟩
        simp only [Option.some.injEq, Prod.mk.injEq] at hc
        obtain ⟨rfl, rfl⟩ := hc
        exact .asked _ (by rw [hreq]; rfl) rfl hread hflight
      · cases hstep
        exact Matched.finish (s := { s with calls := s.calls + 1 }) h.results
          fun hne => absurd rfl hne
  | serve v =>
      simp only [step] at hstep
      split at hstep
      · cases hstep
      · rename_i i data rest hreq
        split_ifs at hstep
        cases hstep
        exact h.handle hreq
  | arrive n =>
      simp only [step] at hstep
      split_ifs at hstep with hn
      cases hstep
      refine ⟨h.results, fun i st hc => ?_⟩
      have hsome : s.in_flight ≠ [] := by
        intro hnil
        rw [hnil, List.length_nil] at hn
        omega
      cases h.client i st hc with
      | asked d hd hs hr hf => exact absurd hf hsome
      | silent hd hs hr hf => exact absurd hf hsome
      | answered response hd hmem hsend hbytes =>
          refine .answered response hd hmem hsend ?_
          rw [← hbytes, List.append_assoc, List.take_append_drop]
  | recv n =>
      simp only [step] at hstep
      split at hstep
      · cases hstep
      · rename_i i st hc
        split_ifs at hstep with hn
        cases hstep
        exact h.recv hc hn.1 hn.2.1 hn.2.2
  | timeout =>
      simp only [step] at hstep
      split at hstep
      · cases hstep
      · split_ifs at hstep
        cases hstep
        exact h.results.finish fun hne => absurd rfl hne

/-- **Request/response correlation.**  In every run in which each call finds nothing of an earlier
call outstanding, and whatever the timing of the server, the network and the timeouts, a non-empty
result is the response the server computed for that same call. -/
theorem responses_correlated {actions : List Action}
    (hquiet : Machine.Throughout (step reader) Quiet {} actions)
    (hrun : Machine.run (step reader) {} actions = some s)
    (hround : ∀ e ∈ s.answered,
      reader.responses.parse (reader.responses.serialize e.2) = (true, e.2)) :
    ∀ e ∈ s.results, e.2 ≠ {} → e ∈ s.answered := by
  have hnew : Correlated reader {} := ⟨fun e he => by simp at he, fun i st hc => by simp at hc⟩
  have h := Machine.run_invariant (fun _ _ _ h hq hstep => step_correlated h hq hstep) hnew hquiet
    hrun
  intro e he hne
  obtain ⟨response, hmem, heq⟩ := h.results e he hne
  rw [hround _ hmem] at heq
  rw [show e = (e.1, response) from Prod.ext rfl heq]
  exact hmem

/-! ## An empty storage -/

/-- The response to a request for a stream that does not exist.  A request for the list of streams
gets the empty message, which is not sent. -/
def sampleRefusal : DataStreamsResponse := { errors := ascii "invalid reader path" }

/-- A reader of an empty storage, with the wire format of the messages below. -/
def sampleReader : LogReader where
  scanner_ := ⟨[ascii "r"]⟩
  cal := Host.january.cal
  requests :=
    { serialize := fun r =>
        if r = LogReadClient.getData (ascii "x") 0 0 then
          [8, 0, 16, 0, 26, 1, 120, 40, 0, 48, 255, 255, 255, 255, 15]
        else [8, 0, 16, 0, 40, 0, 48, 255, 255, 255, 255, 15]
      parse := fun bs =>
        if bs = [8, 0, 16, 0, 26, 1, 120, 40, 0, 48, 255, 255, 255, 255, 15] then
          (true, LogReadClient.getData (ascii "x") 0 0)
        else (true, LogReadClient.getStreams 0 0) }
  responses :=
    { serialize := fun r => if r = {} then [] else [26, 19] ++ r.errors
      parse := fun bs => (true, if bs = [] then {} else { errors := bs.drop 2 }) }

/-- An empty storage. -/
def sampleView : View :=
  (World.bare [ascii "r"]).view (fun _ i => (World.bare [ascii "r"]).content i) fun _ => []

/-- A call that is answered in two pieces, and a second one that gets no response. -/
def patientCalls : List Action :=
  [.call (LogReadClient.getData (ascii "x") 0 0), .serve sampleView, .arrive 10, .recv 4, .recv 6,
    .arrive 15, .recv 15, .call (LogReadClient.getStreams 0 0), .serve sampleView, .timeout]

/-- The client waits for its first response; the second one does not come in time. -/
theorem responses_correlated_patient :
    ∃ s, Machine.run (step sampleReader) {} patientCalls = some s ∧
      s.results = [(0, sampleRefusal), (1, {})] ∧
      ∀ e ∈ s.results, e.2 ≠ {} → e ∈ s.answered := by
  have hrun : Machine.run (step sampleReader) {} patientCalls = some
      { calls := 2, answered := [(0, sampleRefusal), (1, {})],
        results := [(0, sampleRefusal), (1, {})] } := by
    decide +kernel
  have hquiet : Machine.Throughout (step sampleReader) Quiet {} patientCalls := by
    decide +kernel
  exact ⟨_, hrun, rfl, responses_correlated hquiet hrun (by decide +kernel)⟩

/-- The first call times out while the server is still at work.  Its response arrives, and the
second call returns it, although the server has not even seen the second request. -/
theorem late_response_misleads :
    (Machine.run (step sampleReader) {} [.call (LogReadClient.getData (ascii "x") 0 0), .timeout,
      .serve sampleView, .arrive 25, .call (LogReadClient.getStreams 0 0), .recv 4, .recv 21]).map
        (fun s => (s.results, s.answered)) =
      some ([(0, {}), (1, sampleRefusal)], [(0, sampleRefusal)]) := by
  decide +kernel

end Session

end Tracebox
