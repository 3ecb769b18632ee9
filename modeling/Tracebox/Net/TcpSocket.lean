import Tracebox.Lib.Bytes
import Tracebox.Lib.Machine
import Tracebox.Std

/-!
# `TcpSocket`

A payload travels as a frame: its length in four bytes, then the payload.  `sendDataWith` puts a
frame on the wire with as many `send` calls as it takes, `readDataWith` collects one with as many
`recv` calls; both are driven by what the calls return.

A reader in the middle of a frame is a `ReadState`.  What it has read so far (`consumed`) is all
that matters for the rest of the development:

* `recv_reading`, `recv_returned` — **the reader goes through a frame byte by byte**, however the
  bytes are split, and what it returns is the payload of the frame it went through;
* `prefixFree_frame` — frames are a prefix-free code;
* `sendDataWith_prefix` — a send that fails leaves a beginning of the frame on the wire.
-/

namespace Tracebox

open Bytes

/-- A payload with its size in front. -/
def frame (payload : Bytes) : Bytes := toLE 4 payload.length ++ payload

/-- A payload whose size fits its field. -/
def Sendable (payload : Bytes) : Prop := payload.length ≤ UINT32_MAX

instance (payload : Bytes) : Decidable (Sendable payload) :=
  inferInstanceAs (Decidable (_ ≤ _))

lemma length_frame (payload : Bytes) : (frame payload).length = 4 + payload.length := by
  simp [frame]

/-- The size in a frame tells where it ends. -/
lemma prefixFree_frame : PrefixFree frame Sendable where
  ne_nil a h := by simpa [length_frame] using congrArg List.length h
  eq {a b} ha hb hp := by
    obtain ⟨t, ht⟩ := hp
    rw [frame, frame, List.append_assoc] at ht
    obtain ⟨hsize, hrest⟩ := List.append_inj ht (by simp)
    have hlen := congrArg ofLE hsize
    have hmax : UINT32_MAX < 256 ^ 4 := by decide
    rw [ofLE_toLE (lt_of_le_of_lt ha hmax), ofLE_toLE (lt_of_le_of_lt hb hmax)] at hlen
    have hnil : t = [] := List.length_eq_zero_iff.mp (by
      rw [← hrest, List.length_append] at hlen
      omega)
    rwa [hnil, List.append_nil] at hrest

/-! ## Sending -/

/-- What a call of `send` came to. -/
inductive SendCall where
  /-- so many bytes were accepted -/
  | sent (n : ℕ)
  /-- `-1` with `EINTR` -/
  | interrupted
  /-- `-1` with any other error: a timeout, a full buffer, a broken connection -/
  | failed
  deriving DecidableEq, Repr

/-- The loop of `sendDataWith` over what is left of the buffer: its result and the bytes that were
accepted.  None when the calls of the script are used up before it returns. -/
def sendLoop : List SendCall → Bytes → Option (Bool × Bytes)
  | _, [] => some (true, [])
  | [], _ => none
  | .sent n :: script, rest =>
      if n = 0 then some (false, [])
      else (sendLoop script (rest.drop n)).map fun r => (r.1, rest.take n ++ r.2)
  | .interrupted :: script, rest => sendLoop script rest
  | .failed :: _, _ => some (false, [])

/-- `sendDataWith`: a payload without a frame is refused, any other is sent with its length. -/
def sendDataWith (data : Bytes) (script : List SendCall) : Option (Bool × Bytes) :=
  if UINT32_MAX < data.length then some (false, []) else sendLoop script (frame data)

lemma sendLoop_prefix {script : List SendCall} {rest bytes : Bytes} {ok : Bool}
    (h : sendLoop script rest = some (ok, bytes)) :
    bytes <+: rest ∧ (ok = true ↔ bytes = rest) := by
  induction script generalizing rest bytes ok with
  | nil =>
      cases rest with
      | nil =>
          cases h
          simp
      | cons b rest => simp [sendLoop] at h
  | cons call script ih =>
      cases rest with
      | nil =>
          cases h
          simp
      | cons b rest =>
          cases call with
          | sent n =>
              simp only [sendLoop] at h
              split_ifs at h with hn
              · cases h
                simp
              · obtain ⟨⟨ok', bytes'⟩, hr, heq⟩ := Option.map_eq_some_iff.mp h
                obtain ⟨hp, hiff⟩ := ih hr
                cases heq
                refine ⟨?_, hiff.trans ⟨fun he => ?_, fun he => ?_⟩⟩
                · obtain ⟨t, ht⟩ := hp
                  exact ⟨t, by rw [List.append_assoc, ht, List.take_append_drop]⟩
                · rw [he, List.take_append_drop]
                · conv_rhs at he => rw [← List.take_append_drop n (b :: rest)]
                  exact List.append_cancel_left he
          | interrupted =>
              simp only [sendLoop] at h
              exact ih h
          | failed =>
              simp only [sendLoop] at h
              cases h
              simp

/-- **What a send leaves on the wire**: a beginning of the frame, all of it exactly when the send
reports success.  A payload that is too long is refused before anything is sent. -/
theorem sendDataWith_prefix {data bytes : Bytes} {script : List SendCall} {ok : Bool}
    (h : sendDataWith data script = some (ok, bytes)) :
    bytes <+: frame data ∧ (ok = true ↔ bytes = frame data) ∧
      (bytes ≠ [] → Sendable data) := by
  unfold sendDataWith at h
  split_ifs at h with hlong
  · cases h
    have hne := prefixFree_frame.ne_nil data
    exact ⟨List.nil_prefix, by simp [hne.symm], by simp⟩
  · obtain ⟨hp, hiff⟩ := sendLoop_prefix h
    exact ⟨hp, hiff, fun _ => not_lt.mp hlong⟩

/-! ## Receiving -/

/-- What a call of `recv` came to. -/
inductive RecvCall where
  /-- these bytes; none of them means that the peer has closed the connection -/
  | got (bytes : Bytes)
  /-- `-1` with `EINTR` -/
  | interrupted
  /-- `-1` with any other error: a timeout, or no byte on a non-blocking socket -/
  | failed
  deriving DecidableEq, Repr

/-- A `readDataWith` that has not returned yet. -/
inductive ReadState where
  | header (loaded : Bytes) (h : loaded.length < 4)
  | payload (payload_size : UInt32) (buffer : Bytes) (h : buffer.length < payload_size.toNat)
  deriving DecidableEq

/-- What comes of a `recv` call: the reader goes on, or it returns.  It returns the empty string
in case of any error. -/
inductive ReadStep where
  | reading (st : ReadState)
  | returned (result : Bytes)
  deriving DecidableEq

namespace ReadState

/-- Nothing was read yet. -/
def start : ReadState := .header [] (by decide)

/-- The size argument of the next `recv`. -/
def wanted : ReadState → ℕ
  | header loaded _ => 4 - loaded.length
  | payload payload_size buffer _ => payload_size.toNat - buffer.length

/-- The bytes of the current frame that were read. -/
def consumed : ReadState → Bytes
  | header loaded _ => loaded
  | payload payload_size buffer _ => toLE 4 payload_size.toNat ++ buffer

/-- The condition of the second loop. -/
def loadPayload (payload_size : UInt32) (buffer : Bytes) : ReadStep :=
  if h : buffer.length < payload_size.toNat then .reading (.payload payload_size buffer h)
  else .returned buffer

/-- One iteration of `readDataWith`. -/
def recv : ReadState → RecvCall → ReadStep
  | st, .interrupted => .reading st
  | _, .failed => .returned []
  | _, .got [] => .returned []
  | header loaded _, .got bytes =>
      if h : (loaded ++ bytes).length < 4 then .reading (.header (loaded ++ bytes) h)
      else loadPayload (UInt32.ofNat (ofLE (loaded ++ bytes))) []
  | payload payload_size buffer _, .got bytes => loadPayload payload_size (buffer ++ bytes)

@[simp] lemma consumed_start : start.consumed = [] := rfl

lemma wanted_pos (st : ReadState) : 0 < st.wanted := by
  cases st with
  | header loaded h => simp only [wanted]; omega
  | payload payload_size buffer h => simp only [wanted]; omega

/-- The four bytes of a header, as a size. -/
lemma toLE_size {bytes : Bytes} (h : bytes.length = 4) :
    toLE 4 (UInt32.ofNat (ofLE bytes)).toNat = bytes := by
  have hlt := ofLE_lt bytes
  rw [h] at hlt
  have hmod : (UInt32.ofNat (ofLE bytes)).toNat = ofLE bytes := by
    rw [UInt32.toNat_ofNat']
    omega
  rw [hmod, ← h, toLE_ofLE]

/-- What the second loop makes of the bytes read so far. -/
lemma loadPayload_reading {payload_size : UInt32} {buffer : Bytes} {st : ReadState}
    (h : loadPayload payload_size buffer = .reading st) :
    st.consumed = toLE 4 payload_size.toNat ++ buffer := by
  unfold loadPayload at h
  split_ifs at h
  cases h
  rfl

lemma loadPayload_returned {payload_size : UInt32} {buffer result : Bytes}
    (hle : buffer.length ≤ payload_size.toNat)
    (h : loadPayload payload_size buffer = .returned result) :
    frame result = toLE 4 payload_size.toNat ++ buffer ∧ Sendable result := by
  unfold loadPayload at h
  split_ifs at h with hlt
  cases h
  have heq : buffer.length = payload_size.toNat := le_antisymm hle (not_lt.mp hlt)
  have hmax := payload_size.toNat_lt
  refine ⟨by rw [frame, heq], ?_⟩
  unfold Sendable UINT32_MAX
  omega

/-- **Going on**: the bytes that arrived were read. -/
lemma recv_reading {st st' : ReadState} {bytes : Bytes} (hne : bytes ≠ [])
    (hle : bytes.length ≤ st.wanted) (h : st.recv (.got bytes) = .reading st') :
    st'.consumed = st.consumed ++ bytes := by
  cases bytes with
  | nil => exact absurd rfl hne
  | cons b bs =>
      cases st with
      | header loaded hloaded =>
          simp only [recv] at h
          split_ifs at h with hlt
          · cases h
            rfl
          · have h4 : (loaded ++ b :: bs).length = 4 := by
              rw [List.length_append] at hlt ⊢
              simp only [wanted] at hle
              omega
            rw [loadPayload_reading h, toLE_size h4, List.append_nil]
            rfl
      | payload payload_size buffer hbuffer =>
          rw [loadPayload_reading h, ← List.append_assoc]
          rfl

/-- **Returning**: the reader went through a frame and returns its payload. -/
lemma recv_returned {st : ReadState} {bytes result : Bytes} (hne : bytes ≠ [])
    (hle : bytes.length ≤ st.wanted) (h : st.recv (.got bytes) = .returned result) :
    frame result = st.consumed ++ bytes ∧ Sendable result := by
  cases bytes with
  | nil => exact absurd rfl hne
  | cons b bs =>
      cases st with
      | header loaded hloaded =>
          simp only [recv] at h
          split_ifs at h with hlt
          have h4 : (loaded ++ b :: bs).length = 4 := by
            rw [List.length_append] at hlt ⊢
            simp only [wanted] at hle
            omega
          obtain ⟨hframe, hsend⟩ := loadPayload_returned (by simp) h
          rw [toLE_size h4, List.append_nil] at hframe
          exact ⟨hframe, hsend⟩
      | payload payload_size buffer hbuffer =>
          have hlen : (buffer ++ b :: bs).length ≤ payload_size.toNat := by
            rw [List.length_append]
            simp only [wanted] at hle
            omega
          obtain ⟨hframe, hsend⟩ := loadPayload_returned hlen h
          rw [← List.append_assoc] at hframe
          exact ⟨hframe, hsend⟩

end ReadState

end Tracebox
