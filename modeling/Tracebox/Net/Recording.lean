import Tracebox.Lib.Wire
import Tracebox.Net.Framing
import Tracebox.Writer.LogWriter

/-!
# From `LogClient` to `LogWriter`

A record's way through the network: `LogClient::logData` puts it into a `LogRequest` message and
sends the message as one frame, and `TraceboxLogger::handleLogRequest` parses the payload of a frame
and hands the request to the writer.

The code protobuf generates from `logger.proto` is a parameter (`Protobuf`), with what its
documentation promises (`Protobuf.Lawful`): the encoding of a message can be parsed again, a message
whose `string` fields are not text cannot be parsed, a message of more than `INT_MAX` bytes is not
serialized at all.

* `LogClient.logData_complete`, `received_serialized` — what goes over the wire, and what becomes
  of it on the other side.
* `record_arrives_iff` — **a record arrives exactly when its stream name and its payload are valid
  UTF-8** and the message is not too large, for every way the two sides split the bytes.
* `Protobuf.wire` — the wire format of the four fields, which behaves as asked.
-/

namespace Tracebox

open Bytes Wire

/-! ## Messages -/

/-- `LogRequest` as protobuf holds it: a field that is `optional` knows whether it was set. -/
structure LogRequestMessage where
  channel : Option Bytes := none
  size : Option UInt32 := none
  data : Option Bytes := none
  time_ns : Option UInt64 := none
  deriving DecidableEq

namespace LogRequestMessage

/-- What the getters of the message return. -/
def request (m : LogRequestMessage) : LogRequest :=
  ⟨m.channel.getD [], m.size.getD 0, m.data.getD [], m.time_ns.getD 0⟩

/-- The two fields of type `string` hold text. -/
def IsText (m : LogRequestMessage) : Prop :=
  (∀ s ∈ m.channel, ValidUtf8 s) ∧ ∀ s ∈ m.data, ValidUtf8 s

instance (m : LogRequestMessage) : Decidable m.IsText :=
  inferInstanceAs (Decidable (_ ∧ _))

end LogRequestMessage

/-- The code generated for `LogRequest`. -/
structure Protobuf where
  /-- the wire encoding, of `ByteSizeLong()` bytes -/
  encode : LogRequestMessage → Bytes
  /-- the message, when the call returns `true` -/
  ParseFromArray : Bytes → Option LogRequestMessage

namespace Protobuf

/-- The greatest `int`, which is the greatest size of a message. -/
def INT_MAX : ℕ := 2 ^ 31 - 1

/-- What the call leaves in its argument.  A message that is too large is not written, and the call
returns `false`. -/
def SerializePartialToString (pb : Protobuf) (m : LogRequestMessage) : Bytes :=
  if (pb.encode m).length ≤ INT_MAX then pb.encode m else []

/-- What the documentation of protobuf says about messages with four such fields. -/
structure Lawful (pb : Protobuf) : Prop where
  round_trip : ∀ m : LogRequestMessage, m.IsText → (pb.encode m).length ≤ INT_MAX →
    pb.ParseFromArray (pb.encode m) = some m
  /-- a `string` field has to hold UTF-8 -/
  rejects : ∀ m : LogRequestMessage, ¬ m.IsText → pb.ParseFromArray (pb.encode m) = none
  /-- no bytes at all are a message in which no field is set -/
  empty : pb.ParseFromArray [] = some {}

end Protobuf

/-! ## The client -/

/-- `LogClient`: the stream that the records of a client go to. -/
structure LogClient where
  stream_name_ : Bytes
  /-- `0` for a variable-size stream -/
  record_size_ : UInt32 := 0
  deriving DecidableEq

namespace LogClient

/-- The message `logData` fills in. -/
def message (c : LogClient) (data : Bytes) (time_ns : UInt64) : LogRequestMessage where
  channel := some c.stream_name_
  size := if c.record_size_ ≠ 0 then some c.record_size_ else none
  data := some data
  time_ns := some time_ns

/-- The result and the bytes on the wire, for what the calls of `send` came to. -/
def logData (pb : Protobuf) (c : LogClient) (data : Bytes) (time_ns : UInt64)
    (script : List SendCall) : Option (Bool × Bytes) :=
  if c.record_size_ ≠ 0 ∧ data.length ≠ c.record_size_.toNat then some (false, [])
  else sendDataWith (pb.SerializePartialToString (c.message data time_ns)) script

/-- The size check of `logData` lets the payload pass. -/
def Takes (c : LogClient) (data : Bytes) : Prop :=
  c.record_size_ ≠ 0 → data.length = c.record_size_.toNat

lemma request_message (c : LogClient) (data : Bytes) (time_ns : UInt64) :
    (c.message data time_ns).request = ⟨c.stream_name_, c.record_size_, data, time_ns⟩ := by
  by_cases h : c.record_size_ = 0
  · simp [message, LogRequestMessage.request, h]
  · simp [message, LogRequestMessage.request, h]

lemma isText_message (c : LogClient) (data : Bytes) (time_ns : UInt64) :
    (c.message data time_ns).IsText ↔ ValidUtf8 c.stream_name_ ∧ ValidUtf8 data := by
  simp [message, LogRequestMessage.IsText]

lemma sendable_serialized (pb : Protobuf) (m : LogRequestMessage) :
    Sendable (pb.SerializePartialToString m) := by
  have hmax : Protobuf.INT_MAX ≤ UINT32_MAX := by decide
  rw [Protobuf.SerializePartialToString]
  split_ifs with h
  · exact h.trans hmax
  · exact Nat.zero_le _

/-- **A payload that passes the check is sent**, as one frame. -/
lemma logData_complete (pb : Protobuf) {c : LogClient} {data : Bytes} (htakes : c.Takes data)
    (time_ns : UInt64) {calls : ℕ → SendCall} (hcalls : Accepting calls) :
    ∃ N, ∀ M, N ≤ M → c.logData pb data time_ns (firstCalls calls M) =
      some (true, frame (pb.SerializePartialToString (c.message data time_ns))) := by
  obtain ⟨N, hN⟩ := sendDataWith_complete hcalls
    (sendable_serialized pb (c.message data time_ns))
  refine ⟨N, fun M hM => ?_⟩
  rw [logData, if_neg, hN M hM]
  rintro ⟨hsize, hlen⟩
  exact hlen (htakes hsize)

end LogClient

/-! ## The server -/

namespace TraceboxLogger

variable {σ : Type*}

/-- The callback: the string it returns and the writer it leaves.  Calls of `add` are part of what
is seen of the writer. -/
def handleLogRequest (pb : Protobuf) (s : LogWriterSystem σ) (data : Bytes) :
    Bytes × LogWriterSystem σ :=
  match pb.ParseFromArray data with
  | some m =>
      let r := s.writer.add m.request
      ([], { s with writer := r.2, added := s.added ++ [(m.request, r.1)] })
  | none => ([], s)

/-- `Server::handleLogRequest` of a running server from the end of `readData` on: an empty string is
a failed read and does not get to the callback. -/
def received (pb : Protobuf) (s : LogWriterSystem σ) (buffer : Bytes) : LogWriterSystem σ :=
  if buffer = [] then s else (handleLogRequest pb s buffer).2

/-- The record is the next one handed to `add`. -/
def HandedOver (s s' : LogWriterSystem σ) (request : LogRequest) : Prop :=
  s'.added = s.added ++ [(request, ! s.writer.stopping_)]

end TraceboxLogger

/-! ## The way of a record -/

section Way

variable {σ : Type*} {pb : Protobuf}

open TraceboxLogger

/-- What the callback does with the payload of a frame. -/
lemma received_serialized (hpb : pb.Lawful) {c : LogClient} {data : Bytes} {time_ns : UInt64}
    (s : LogWriterSystem σ) :
    HandedOver s (received pb s (pb.SerializePartialToString (c.message data time_ns)))
        ⟨c.stream_name_, c.record_size_, data, time_ns⟩ ↔
      (ValidUtf8 c.stream_name_ ∧ ValidUtf8 data) ∧
        (pb.encode (c.message data time_ns)).length ≤ Protobuf.INT_MAX := by
  rw [← c.isText_message data time_ns, ← c.request_message data time_ns]
  have hset : c.message data time_ns ≠ {} := by simp [LogClient.message]
  generalize c.message data time_ns = m at hset ⊢
  have hnothing : ¬ HandedOver s s m.request := by simp [HandedOver]
  rw [Protobuf.SerializePartialToString]
  by_cases hsize : (pb.encode m).length ≤ Protobuf.INT_MAX
  · have hne : pb.encode m ≠ [] := by
      intro hnil
      by_cases htext : m.IsText
      · have := hpb.round_trip m htext hsize
        rw [hnil, hpb.empty] at this
        exact hset (Option.some.inj this).symm
      · have := hpb.rejects m htext
        rw [hnil, hpb.empty] at this
        cases this
    rw [if_pos hsize, received, if_neg hne, handleLogRequest]
    by_cases htext : m.IsText
    · rw [hpb.round_trip m htext hsize]
      simp only [htext, hsize, and_self, iff_true, HandedOver]
      cases hstop : s.writer.stopping_ <;> simp [LogWriter.add, hstop]
    · rw [hpb.rejects m htext]
      simp only [htext, false_and, iff_false]
      exact hnothing
  · rw [if_neg hsize, received, if_pos rfl]
    simp only [hsize, and_false, iff_false]
    exact hnothing

/-- **A record arrives exactly when its stream name and its payload are valid UTF-8** and its
message is not too large.  To arrive means: `logData` returns `true`, the server reads one frame off
the wire, and the next request handed to `LogWriter::add` has the channel, the size, the data and
the time that the client was given, for every way the calls of `send` and `recv` split and interrupt
the bytes. -/
theorem record_arrives_iff (hpb : pb.Lawful) (c : LogClient) {data : Bytes}
    (htakes : c.Takes data) (time_ns : UInt64) {send : ℕ → SendCall} (hsend : Accepting send)
    {recv : ℕ → Delivery} (hrecv : Delivering recv) (s : LogWriterSystem σ) :
    (∃ N, ∀ M, N ≤ M → ∃ wire buffer calls,
      c.logData pb data time_ns (firstCalls send M) = some (true, wire) ∧
      readDataWith (firstCalls recv M) wire = some (buffer, calls, []) ∧
      HandedOver s (received pb s buffer) ⟨c.stream_name_, c.record_size_, data, time_ns⟩) ↔
    (ValidUtf8 c.stream_name_ ∧ ValidUtf8 data) ∧
      (pb.encode (c.message data time_ns)).length ≤ Protobuf.INT_MAX := by
  rw [← received_serialized hpb s]
  obtain ⟨N₁, hsent⟩ := c.logData_complete pb htakes time_ns hsend
  generalize hpayload : pb.SerializePartialToString (c.message data time_ns) = payload at hsent ⊢
  have hsendable : Sendable payload := hpayload ▸ LogClient.sendable_serialized pb _
  obtain ⟨N₂, hN₂⟩ := exists_countP_firstCalls recv Delivery.delivers hrecv
    (frame payload).length
  have hread : ∀ M, N₂ ≤ M → ∃ calls,
      readDataWith (firstCalls recv M) (frame payload) = some (payload, calls, []) := by
    intro M hM
    have hstart : ReadState.start.consumed ++ frame payload = frame payload := by simp
    obtain ⟨calls, hr, -⟩ := readLoop_frame hsendable [] hstart (hN₂ M hM)
    rw [List.append_nil] at hr
    exact ⟨calls, hr⟩
  constructor
  · rintro ⟨N, h⟩
    obtain ⟨wire, buffer, calls, hlog, hbuffer, hover⟩ :=
      h (max N (max N₁ N₂)) (le_max_left _ _)
    have h₁ : N₁ ≤ max N (max N₁ N₂) := le_trans (le_max_left _ _) (le_max_right _ _)
    have h₂ : N₂ ≤ max N (max N₁ N₂) := le_trans (le_max_right _ _) (le_max_right _ _)
    rw [hsent _ h₁] at hlog
    obtain rfl : frame payload = wire := (Prod.mk.inj (Option.some.inj hlog)).2
    obtain ⟨calls', hr⟩ := hread _ h₂
    rw [hr] at hbuffer
    obtain rfl : payload = buffer := (Prod.mk.inj (Option.some.inj hbuffer)).1
    exact hover
  · intro hover
    refine ⟨max N₁ N₂, fun M hM => ?_⟩
    obtain ⟨calls, hr⟩ := hread M (le_of_max_le_right hM)
    exact ⟨frame payload, payload, calls, hsent M (le_of_max_le_left hM), hr, hover⟩

end Way

/-! ## The wire format of the four fields -/

namespace LogRequestMessage

/-- The fields that are set, in the order of their numbers. -/
def fields (m : LogRequestMessage) : List Field :=
  (m.channel.map fun s => ⟨1, .string s⟩).toList ++
    ((m.size.map fun n => ⟨2, .number n.toNat⟩).toList ++
      ((m.data.map fun s => ⟨3, .string s⟩).toList ++
        (m.time_ns.map fun n => ⟨4, .number n.toNat⟩).toList))

/-- The message with one more field read.  A field that comes again replaces what was there, and
one that is not known is left out. -/
def read (m : LogRequestMessage) : Field → Option LogRequestMessage
  | ⟨1, .string s⟩ => if ValidUtf8 s then some { m with channel := some s } else none
  | ⟨2, .number n⟩ => some { m with size := some (UInt32.ofNat n) }
  | ⟨3, .string s⟩ => if ValidUtf8 s then some { m with data := some s } else none
  | ⟨4, .number n⟩ => some { m with time_ns := some (UInt64.ofNat n) }
  | _ => some m

/-- Reading a field that may not be set. -/
lemma foldlM_read_toList {α : Type*} (m : LogRequestMessage) (o : Option α) (f : α → Field) :
    (o.map f).toList.foldlM read m = o.elim (some m) fun a => read m (f a) := by
  cases o <;> simp

/-- Reading the fields of a message gives the message, if it is text. -/
lemma foldlM_read_fields (m : LogRequestMessage) :
    m.fields.foldlM read {} = if m.IsText then some m else none := by
  obtain ⟨channel, size, data, time_ns⟩ := m
  have hchannel : (channel.elim (some {}) fun s => read {} ⟨1, .string s⟩) =
      if ∀ s ∈ channel, ValidUtf8 s then some { channel := channel } else none := by
    cases channel <;> simp [read]
  have hsize : (size.elim (some { channel := channel }) fun n =>
      read { channel := channel } ⟨2, .number n.toNat⟩) =
        some { channel := channel, size := size } := by
    cases size <;> simp [read]
  have hdata : (data.elim (some { channel := channel, size := size }) fun s =>
      read { channel := channel, size := size } ⟨3, .string s⟩) =
        if ∀ s ∈ data, ValidUtf8 s then some { channel := channel, size := size, data := data }
        else none := by
    cases data <;> simp [read]
  have htime : (time_ns.elim (some { channel := channel, size := size, data := data }) fun n =>
      read { channel := channel, size := size, data := data } ⟨4, .number n.toNat⟩) =
        some ⟨channel, size, data, time_ns⟩ := by
    cases time_ns <;> simp [read]
  have htext : IsText ⟨channel, size, data, time_ns⟩ ↔
      (∀ s ∈ channel, ValidUtf8 s) ∧ ∀ s ∈ data, ValidUtf8 s := Iff.rfl
  simp only [fields, List.foldlM_append, foldlM_read_toList, Option.bind_eq_bind, hchannel]
  by_cases hc : ∀ s ∈ channel, ValidUtf8 s
  · rw [if_pos hc, Option.bind_some, hsize, Option.bind_some, hdata]
    by_cases hd : ∀ s ∈ data, ValidUtf8 s
    · rw [if_pos hd, if_pos (htext.mpr ⟨hc, hd⟩), Option.bind_some, htime]
    · rw [if_neg hd, if_neg fun h => hd (htext.mp h).2, Option.bind_none]
  · rw [if_neg hc, if_neg fun h => hc (htext.mp h).1, Option.bind_none]

end LogRequestMessage

/-- The wire format itself. -/
def Protobuf.wire : Protobuf where
  encode m := m.fields.flatMap Field.encode
  ParseFromArray bs := (decodeAll bs.length bs).bind fun fields =>
    fields.foldlM LogRequestMessage.read {}

lemma Protobuf.parse_wire (m : LogRequestMessage) :
    Protobuf.wire.ParseFromArray (Protobuf.wire.encode m) = if m.IsText then some m else none := by
  simp only [Protobuf.wire, decodeAll_flatMap (length_le_flatMap m.fields), Option.bind_some,
    m.foldlM_read_fields]

lemma Protobuf.lawful_wire : Protobuf.wire.Lawful where
  round_trip m htext _ := by rw [parse_wire, if_pos htext]
  rejects m htext := by rw [parse_wire, if_neg htext]
  empty := rfl

/-- A record of three bytes with a stream name of three letters arrives. -/
theorem record_arrives_imu : ∃ N, ∀ M, N ≤ M → ∃ wire buffer calls,
    LogClient.logData .wire ⟨ascii "imu", 3⟩ (ascii "abc") 7 (firstCalls (fun _ => .sent 1) M) =
      some (true, wire) ∧
    readDataWith (firstCalls (fun _ => .deliver 2) M) wire = some (buffer, calls, []) ∧
    TraceboxLogger.HandedOver (LogWriterSystem.start ())
      (TraceboxLogger.received .wire (LogWriterSystem.start ()) buffer)
      ⟨ascii "imu", 3, ascii "abc", 7⟩ := by
  have htakes : LogClient.Takes ⟨ascii "imu", 3⟩ (ascii "abc") := by
    intro _
    decide +kernel
  have hsend : Accepting fun _ => .sent 1 :=
    ⟨fun _ => Or.inr ⟨1, one_pos, rfl⟩, by simpa [SendCall.accepts] using Set.infinite_univ⟩
  have hrecv : Delivering fun _ => .deliver 2 := by
    simpa [Delivering, Delivery.delivers] using Set.infinite_univ
  exact (record_arrives_iff Protobuf.lawful_wire _ htakes 7 hsend hrecv _).mpr (by decide +kernel)

/-- A payload of one byte that is not text, from a client whose check lets it pass.  `logData`
returns `true` and the whole frame arrives, but nothing is handed to the writer. -/
theorem binary_record_lost :
    let c : LogClient := ⟨ascii "imu", 1⟩
    let payload : Bytes := [10, 3, 105, 109, 117, 16, 1, 26, 1, 255, 32, 7]
    c.Takes [255] ∧
    c.logData .wire [255] 7 [.sent 100] = some (true, frame payload) ∧
    readDataWith [.deliver 4, .deliver 100] (frame payload) = some (payload, [], []) ∧
    (TraceboxLogger.received .wire (LogWriterSystem.start ()) payload).added = [] := by
  refine ⟨fun _ => rfl, by decide +kernel, by decide +kernel, by decide +kernel⟩

end Tracebox
