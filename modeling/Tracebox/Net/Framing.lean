import Tracebox.Net.TcpSocket

/-!
# Framing over a stream that splits and interrupts

`sendDataWith` and `readDataWith` against system calls that take or hand over as few bytes as they
like and are interrupted any number of times in between.  A behaviour of `send` is an infinite
sequence of calls, one of `recv` an infinite sequence of deliveries; all that is asked of them is
that the calls that are not interrupted never run out.

* `sendDataWith_complete` — **a send goes through**: it returns `true` and the whole frame is on
  the wire.
* `readLoop_frame`, `readLoop_eof` — **a read takes exactly one frame off the stream**, or returns
  the empty string when the stream ends inside it.
* `framing_round_trip` — **the payloads come out as they went in**, for every way the two sides
  split and interrupt the bytes.
-/

namespace Tracebox

open Bytes

/-! ## Behaviours of the system calls -/

/-- The first `m` calls of a behaviour. -/
def firstCalls {α : Type*} (calls : ℕ → α) (m : ℕ) : List α := (List.range m).map calls

/-- Calls that recur for ever are as many as one likes from some point on. -/
lemma exists_countP_firstCalls {α : Type*} (calls : ℕ → α) (p : α → Bool)
    (h : {i | p (calls i) = true}.Infinite) (k : ℕ) :
    ∃ N, ∀ M, N ≤ M → k ≤ (firstCalls calls M).countP p := by
  have hcount : ∀ M, (firstCalls calls M).countP p =
    Nat.count (fun i => p (calls i) = true) M := by
    intro M
    rw [firstCalls, List.countP_map, Nat.count]
    exact List.countP_congr fun i _ => by simp
  obtain ⟨N, hN⟩ := Nat.surjective_count_of_infinite_setOfPred h k
  refine ⟨N, fun M hM => ?_⟩
  rw [hcount, ← hN]
  exact Nat.count_monotone _ hM

/-- The call took some of the bytes. -/
def SendCall.accepts : SendCall → Bool
  | .sent _ => true
  | _ => false

/-- A `send` that takes at least one byte whenever it is not interrupted, and is not interrupted
for ever. -/
structure Accepting (calls : ℕ → SendCall) : Prop where
  goes_on : ∀ i, calls i = .interrupted ∨ ∃ n, 0 < n ∧ calls i = .sent n
  recurs : {i | (calls i).accepts = true}.Infinite

/-- What a blocking `recv` does when it is called. -/
inductive Delivery where
  /-- hands over so many of the bytes that are there, or fewer when fewer are asked for; at the end
  of the stream there are none -/
  | deliver (n : ℕ+)
  /-- `-1` with `EINTR` -/
  | interrupted
  deriving DecidableEq

namespace Delivery

/-- The call gives bytes, or the end of the stream. -/
def delivers : Delivery → Bool
  | deliver _ => true
  | interrupted => false

/-- The call of `recv` for `wanted` bytes, and what it leaves of the stream. -/
def recv (wanted : ℕ) (stream : Bytes) : Delivery → RecvCall × Bytes
  | deliver n => (.got (stream.take (min n wanted)), stream.drop (min n wanted))
  | interrupted => (.interrupted, stream)

end Delivery

/-- A `recv` that is not interrupted for ever. -/
def Delivering (calls : ℕ → Delivery) : Prop := {i | (calls i).delivers = true}.Infinite

/-! ## Sending -/

/-- With enough calls that take something, the loop gets to the end of the buffer. -/
lemma sendLoop_complete {script : List SendCall} {rest : Bytes}
    (hgo : ∀ c ∈ script, c = .interrupted ∨ ∃ n, 0 < n ∧ c = .sent n)
    (hcount : rest.length ≤ script.countP SendCall.accepts) :
    sendLoop script rest = some (true, rest) := by
  induction script generalizing rest with
  | nil =>
      cases rest with
      | nil => rfl
      | cons b rest => simp at hcount
  | cons call script ih =>
      cases rest with
      | nil => rfl
      | cons b rest =>
          have hlater : ∀ c ∈ script, c = .interrupted ∨ ∃ n, 0 < n ∧ c = .sent n :=
            fun c hc => hgo c (List.mem_cons_of_mem _ hc)
          rcases hgo call List.mem_cons_self with rfl | ⟨n, hn, rfl⟩
          · have hlen : (b :: rest).length ≤ script.countP SendCall.accepts := by
              simpa [SendCall.accepts] using hcount
            rw [sendLoop, ih hlater hlen]
            simp
          · have hlen : ((b :: rest).drop n).length ≤ script.countP SendCall.accepts := by
              rw [List.length_drop]
              simp only [List.countP_cons, SendCall.accepts, if_true] at hcount
              omega
            rw [sendLoop, if_neg (by omega), ih hlater hlen]
            · simp
            · simp

/-- **A send goes through.** -/
theorem sendDataWith_complete {calls : ℕ → SendCall} (hcalls : Accepting calls) {data : Bytes}
    (hdata : Sendable data) :
    ∃ N, ∀ M, N ≤ M → sendDataWith data (firstCalls calls M) = some (true, frame data) := by
  obtain ⟨N, hN⟩ := exists_countP_firstCalls calls SendCall.accepts hcalls.recurs
    (frame data).length
  refine ⟨N, fun M hM => ?_⟩
  rw [sendDataWith, if_neg (not_lt.mpr hdata)]
  refine sendLoop_complete ?_ (hN M hM)
  intro c hc
  obtain ⟨i, -, rfl⟩ := List.mem_map.mp hc
  exact hcalls.goes_on i

/-- `sendDataWith` on each payload in turn, each with the first `m` calls of its own behaviour: the
results and the bytes on the wire. -/
def sendAll (m : ℕ) : (ℕ → ℕ → SendCall) → List Bytes → Option (List Bool × Bytes)
  | _, [] => some ([], [])
  | calls, payload :: payloads =>
      (sendDataWith payload (firstCalls (calls 0) m)).bind fun r =>
        (sendAll m (fun k => calls (k + 1)) payloads).map fun rs => (r.1 :: rs.1, r.2 ++ rs.2)

/-- Every send of a list goes through, one frame after the other. -/
lemma sendAll_complete {payloads : List Bytes} (hpay : ∀ p ∈ payloads, Sendable p) :
    ∀ {calls : ℕ → ℕ → SendCall}, (∀ k, Accepting (calls k)) →
      ∃ N, ∀ M, N ≤ M →
      sendAll M calls payloads = some (payloads.map fun _ => true, payloads.flatMap frame) := by
  induction payloads with
  | nil => exact fun _ => ⟨0, fun M _ => rfl⟩
  | cons p ps ih =>
      intro calls hcalls
      obtain ⟨N₁, h₁⟩ := sendDataWith_complete (hcalls 0) (hpay p List.mem_cons_self)
      obtain ⟨N₂, h₂⟩ := ih (fun q hq => hpay q (List.mem_cons_of_mem _ hq)) fun k =>
        hcalls (k + 1)
      refine ⟨max N₁ N₂, fun M hM => ?_⟩
      rw [sendAll, h₁ M (le_of_max_le_left hM), Option.bind_some, h₂ M (le_of_max_le_right hM)]
      rfl

/-! ## Receiving -/

/-- The two loops of `readDataWith` on a stream: the result, and what is left of the calls and of
the stream.  None when the calls are used up before it returns. -/
def readLoop : List Delivery → ReadState → Bytes → Option (Bytes × List Delivery × Bytes)
  | [], _, _ => none
  | call :: calls, st, stream =>
      match st.recv (call.recv st.wanted stream).1 with
      | .reading st' => readLoop calls st' (call.recv st.wanted stream).2
      | .returned result => some (result, calls, (call.recv st.wanted stream).2)

/-- `readDataWith`: a frame is read from its first byte on. -/
def readDataWith (calls : List Delivery) (stream : Bytes) :
    Option (Bytes × List Delivery × Bytes) :=
  readLoop calls .start stream

/-- `readDataWith` so many times on one stream: what each call returned and what it left of the
stream. -/
def readAll : ℕ → List Delivery → Bytes → Option (List (Bytes × Bytes))
  | 0, _, _ => some []
  | k + 1, calls, stream =>
      (readDataWith calls stream).bind fun r =>
        (readAll k r.2.1 r.2.2).map fun rs => (r.1, r.2.2) :: rs

namespace ReadState

/-- A reader in the middle of a frame asks for no byte behind it. -/
lemma wanted_le {st : ReadState} {x p : Bytes} (hp : Sendable p) (hx : st.consumed ++ x = frame p) :
    st.wanted ≤ x.length := by
  cases st with
  | header loaded h =>
      have hlen := congrArg List.length hx
      simp only [consumed, List.length_append, length_frame] at hlen
      simp only [wanted]
      omega
  | payload payload_size buffer h =>
      rw [consumed, frame, List.append_assoc] at hx
      obtain ⟨hsize, hrest⟩ := List.append_inj hx (by simp)
      have hnum := congrArg ofLE hsize
      have hmax : UINT32_MAX < 256 ^ 4 := by decide
      rw [ofLE_toLE (lt_of_le_of_lt hp hmax),
        ofLE_toLE (lt_of_lt_of_le payload_size.toNat_lt (by norm_num))] at hnum
      have hlen := congrArg List.length hrest
      rw [List.length_append] at hlen
      simp only [wanted]
      omega

end ReadState

/-- What a delivery takes off a stream that begins with what the reader is waiting for. -/
lemma Delivery.recv_deliver {st : ReadState} {x : Bytes} (rest : Bytes) (n : ℕ+)
    (hle : st.wanted ≤ x.length) :
    ∃ got x', x = got ++ x' ∧ got ≠ [] ∧ got.length ≤ st.wanted ∧
      (Delivery.deliver n).recv st.wanted (x ++ rest) = (.got got, x' ++ rest) := by
  have hpos : 0 < min (n : ℕ) st.wanted := lt_min n.pos st.wanted_pos
  have hmin : min (n : ℕ) st.wanted ≤ x.length := le_trans (min_le_right _ _) hle
  refine ⟨x.take (min n st.wanted), x.drop (min n st.wanted), (List.take_append_drop _ _).symm,
    ?_, ?_, ?_⟩
  · intro h
    have := congrArg List.length h
    rw [List.length_take, List.length_nil] at this
    omega
  · rw [List.length_take]
    omega
  · rw [Delivery.recv, List.take_append_of_le_length hmin, List.drop_append_of_le_length hmin]

/-- **A read takes exactly one frame off the stream** and uses at most one delivery for each of its
bytes.  `x` is what is missing of the frame. -/
lemma readLoop_frame {p : Bytes} (hp : Sendable p) (rest : Bytes) {calls : List Delivery} :
    ∀ {st : ReadState} {x : Bytes}, st.consumed ++ x = frame p →
      x.length ≤ calls.countP Delivery.delivers →
      ∃ calls', readLoop calls st (x ++ rest) = some (p, calls', rest) ∧
        calls.countP Delivery.delivers ≤ calls'.countP Delivery.delivers + x.length := by
  induction calls with
  | nil =>
      intro st x hx hcount
      have := st.wanted_pos
      have := ReadState.wanted_le hp hx
      simp only [List.countP_nil] at hcount
      omega
  | cons call calls ih =>
      intro st x hx hcount
      have hle := ReadState.wanted_le hp hx
      cases call with
      | interrupted =>
          obtain ⟨calls', hread, hrest⟩ := ih hx (by simpa [Delivery.delivers] using hcount)
          exact ⟨calls', hread, by simpa [Delivery.delivers] using hrest⟩
      | deliver n =>
          obtain ⟨got, x', rfl, hne, hgot, hrecv⟩ := Delivery.recv_deliver rest n hle
          have hpos : 0 < got.length := List.length_pos_iff.mpr hne
          simp only [List.countP_cons, Delivery.delivers, if_true, List.length_append] at hcount ⊢
          rw [← List.append_assoc] at hx
          rw [readLoop, hrecv]
          cases hstep : st.recv (.got got) with
          | reading st' =>
              have hcons := ReadState.recv_reading hne hgot hstep
              obtain ⟨calls', hread, hrest⟩ := ih (by rw [hcons, hx]) (by omega)
              exact ⟨calls', hread, by omega⟩
          | returned result =>
              -- a complete frame inside this one is this one
              obtain ⟨hframe, hsend⟩ := ReadState.recv_returned hne hgot hstep
              have hpre : frame result <+: frame p := by
                rw [hframe, ← hx]
                exact List.prefix_append _ _
              obtain rfl := prefixFree_frame.eq hsend hp hpre
              have hnil : x' = [] := by
                rw [← hframe] at hx
                exact List.append_right_eq_self.mp hx
              subst hnil
              exact ⟨calls, rfl, by omega⟩

/-- **A stream that ends inside a frame**: the read returns the empty string and the stream is used
up. -/
lemma readLoop_eof {p : Bytes} (hp : Sendable p) {calls : List Delivery} :
    ∀ {st : ReadState} {x missing : Bytes}, st.consumed ++ x ++ missing = frame p →
      missing ≠ [] → x.length < calls.countP Delivery.delivers →
      ∃ calls', readLoop calls st x = some ([], calls', []) := by
  induction calls with
  | nil => intro st x missing _ _ hcount; simp at hcount
  | cons call calls ih =>
      intro st x missing hx hmiss hcount
      cases call with
      | interrupted =>
          have hlater : x.length < calls.countP Delivery.delivers := by
            simpa [Delivery.delivers] using hcount
          exact ih hx hmiss hlater
      | deliver n =>
          simp only [List.countP_cons, Delivery.delivers, if_true] at hcount
          rw [readLoop, Delivery.recv]
          cases hgot : x.take (min n st.wanted) with
          | nil =>
              have hpos : 0 < min (n : ℕ) st.wanted := lt_min n.pos st.wanted_pos
              have hnil : x = [] := by
                rcases List.take_eq_nil_iff.mp hgot with h | h
                · omega
                · exact h
              subst hnil
              exact ⟨calls, by cases st <;> simp [ReadState.recv]⟩
          | cons b bs =>
              have hsplit := List.take_append_drop (min (n : ℕ) st.wanted) x
              rw [hgot] at hsplit
              have hne : b :: bs ≠ [] := by simp
              have hlen : (b :: bs).length ≤ st.wanted := by
                rw [← hgot, List.length_take]
                omega
              generalize x.drop (min (n : ℕ) st.wanted) = x' at hsplit ⊢
              rw [← hsplit] at hx hcount
              simp only [List.length_append, List.length_cons] at hcount
              rw [← List.append_assoc] at hx
              cases hstep : st.recv (.got (b :: bs)) with
              | reading st' =>
                  have hcons := ReadState.recv_reading hne hlen hstep
                  have hlater : x'.length < calls.countP Delivery.delivers := by omega
                  exact ih (by rw [hcons, hx]) hmiss hlater
              | returned result =>
                  -- the whole frame would have been there
                  obtain ⟨hframe, hsend⟩ := ReadState.recv_returned hne hlen hstep
                  have hpre : frame result <+: frame p := by
                    rw [hframe, ← hx, List.append_assoc]
                    exact List.prefix_append _ _
                  obtain rfl := prefixFree_frame.eq hsend hp hpre
                  rw [← hframe, List.append_assoc] at hx
                  have := List.append_right_eq_self.mp hx
                  exact absurd (List.append_eq_nil_iff.mp this).2 hmiss

/-! ## Whole lists of payloads -/

/-- What reads of whole frames return and leave of the stream: each its payload, and the frames
behind it. -/
def framesRead : List Bytes → Bytes → List (Bytes × Bytes)
  | [], _ => []
  | payload :: payloads, rest => (payload, payloads.flatMap frame ++ rest) ::
    framesRead payloads rest

/-- As many reads as there are frames return the payloads and stop in front of what follows; the
reads after them go on from there. -/
lemma readAll_frames {payloads : List Bytes} (hpay : ∀ p ∈ payloads, Sendable p) (rest : Bytes)
    (k : ℕ) : ∀ {calls : List Delivery},
      (payloads.flatMap frame).length ≤ calls.countP Delivery.delivers →
      ∃ calls', readAll (payloads.length + k) calls (payloads.flatMap frame ++ rest) =
          (readAll k calls' rest).map (framesRead payloads rest ++ ·) ∧
        calls.countP Delivery.delivers ≤
          calls'.countP Delivery.delivers + (payloads.flatMap frame).length := by
  induction payloads with
  | nil =>
      intro calls _
      refine ⟨calls, ?_, by simp⟩
      simp [framesRead, Option.map_id']
  | cons p ps ih =>
      intro calls hcount
      rw [List.flatMap_cons, List.length_append] at hcount
      have hstart : ReadState.start.consumed ++ frame p = frame p := rfl
      have hfirst : (frame p).length ≤ calls.countP Delivery.delivers := by omega
      obtain ⟨calls₁, hread, hleft⟩ :=
        readLoop_frame (hpay p List.mem_cons_self) (ps.flatMap frame ++ rest) hstart hfirst
      have hnext : (ps.flatMap frame).length ≤ calls₁.countP Delivery.delivers := by omega
      obtain ⟨calls', hlater, hleft'⟩ := ih
        (fun q hq => hpay q (List.mem_cons_of_mem _ hq)) hnext
      refine ⟨calls', ?_, by rw [List.flatMap_cons, List.length_append]; omega⟩
      have hlen : (p :: ps).length + k = (ps.length + k) + 1 := by simp; omega
      rw [hlen, readAll, readDataWith, List.flatMap_cons, List.append_assoc, hread]
      simp only [Option.bind_some, hlater, framesRead, Option.map_map]
      congr 1

/-- **The payloads come out as they went in.**  Every send returns `true`; as many reads as there
are payloads return them in order, each taking its own frame off the stream and nothing else.  When
the stream ends inside the frame of `cut`, the reads before it are not affected and its own returns
the empty string. -/
theorem framing_round_trip {payloads : List Bytes} (hpay : ∀ p ∈ payloads, Sendable p)
    {send : ℕ → ℕ → SendCall} (hsend : ∀ k, Accepting (send k))
    {recv : ℕ → Delivery} (hrecv : Delivering recv) :
    ∃ N, ∀ M, N ≤ M → ∃ wire,
      sendAll M send payloads = some (payloads.map fun _ => true, wire) ∧
      wire = payloads.flatMap frame ∧
      readAll payloads.length (firstCalls recv M) wire = some (framesRead payloads []) ∧
      ∀ whole cut later part, payloads = whole ++ cut :: later →
        part <+: frame cut → part ≠ frame cut →
        readAll (whole.length + 1) (firstCalls recv M) (whole.flatMap frame ++ part) =
          some (framesRead whole part ++ [([], [])]) := by
  obtain ⟨N₁, hsent⟩ := sendAll_complete hpay hsend
  obtain ⟨N₂, hread⟩ := exists_countP_firstCalls recv Delivery.delivers hrecv
    ((payloads.flatMap frame).length + 1)
  refine ⟨max N₁ N₂, fun M hM => ⟨_, hsent M (le_of_max_le_left hM), rfl, ?_, ?_⟩⟩
  · have hcount := hread M (le_of_max_le_right hM)
    obtain ⟨calls', hall, -⟩ := readAll_frames hpay [] 0 (Nat.le_of_succ_le hcount)
    simpa [readAll] using hall
  · rintro whole cut later part rfl ⟨missing, hmissing⟩ hpart
    have hcount := hread M (le_of_max_le_right hM)
    rw [List.flatMap_append, List.flatMap_cons, ← hmissing] at hcount
    simp only [List.length_append] at hcount
    have hne : missing ≠ [] := by
      rintro rfl
      exact hpart (by rw [← hmissing, List.append_nil])
    have hwhole : (whole.flatMap frame).length ≤
        (firstCalls recv M).countP Delivery.delivers := by omega
    obtain ⟨calls', hall, hleft⟩ := readAll_frames
      (fun p hp => hpay p (List.mem_append_left _ hp)) part 1 hwhole
    have hin : ReadState.start.consumed ++ part ++ missing = frame cut := hmissing
    have hlater : part.length < calls'.countP Delivery.delivers := by omega
    obtain ⟨calls'', heof⟩ :=
      readLoop_eof (hpay cut (List.mem_append_right _ List.mem_cons_self)) hin hne hlater
    rw [hall]
    simp [readAll, readDataWith, heof]

/-- Every other call is interrupted. -/
lemma infinite_odd {α : Type*} {calls : ℕ → α} {p : α → Bool}
    (h : ∀ i, p (calls (2 * i + 1)) = true) : {i | p (calls i) = true}.Infinite := by
  refine Set.infinite_of_injective_forall_mem (f := fun i => 2 * i + 1) ?_ h
  intro i j hij
  simpa using hij

/-- Every other call is interrupted, and the others take one byte or give two. -/
theorem framing_round_trip_byte_by_byte :
    ∃ N, ∀ M, N ≤ M → ∃ wire,
      sendAll M (fun _ i => if i % 2 = 0 then .interrupted else .sent 1)
        [ascii "one", ascii "two"] = some ([true, true], wire) ∧
      wire = frame (ascii "one") ++ frame (ascii "two") ∧
      readAll 2 (firstCalls (fun i => if i % 2 = 0 then .interrupted else .deliver 2) M) wire =
        some [(ascii "one", frame (ascii "two")), (ascii "two", [])] := by
  have hsend : ∀ k : ℕ, Accepting
      ((fun _ i => if i % 2 = 0 then .interrupted else .sent 1 : ℕ → ℕ → SendCall) k) := by
    intro k
    refine ⟨fun i => ?_, infinite_odd fun i => ?_⟩
    · by_cases hi : i % 2 = 0
      · exact Or.inl (by simp [hi])
      · exact Or.inr ⟨1, by simp, by simp [hi]⟩
    · have hi : (2 * i + 1) % 2 = 1 := by omega
      simp [hi, SendCall.accepts]
  have hrecv : Delivering (fun i => if i % 2 = 0 then .interrupted else .deliver 2) := by
    refine infinite_odd fun i => ?_
    have hi : (2 * i + 1) % 2 = 1 := by omega
    simp [hi, Delivery.delivers]
  have hpay : ∀ p ∈ [ascii "one", ascii "two"], Sendable p := by decide +kernel
  obtain ⟨N, hN⟩ := framing_round_trip hpay hsend hrecv
  refine ⟨N, fun M hM => ?_⟩
  obtain ⟨wire, hsent, hwire, hread, -⟩ := hN M hM
  exact ⟨wire, hsent, by simpa using hwire, by simpa [framesRead] using hread⟩

end Tracebox
