import Tracebox.Net.TcpClient

/-!
# What the methods of `TcpClient` promise

A user of a client sees the calls of its methods and what they return, and in between the calls to
the system with their results.  `Contract` says which results go with which calls, without a word
about how a method gets there.

* `Contract.outcome` — `connect` returns `true` exactly when the address is valid and every call
  to the system succeeded; the calls are then those of `Contract.Connected`, and the client holds
  the one socket it was given; `sendData` returns `true` exactly when the whole frame was taken;
  `readData` returns the payload of the frame that arrived; `disconnect` closes what was held.
* `Follows` — where a client is and where its contract is.
* `results_conform` — **in every interleaving what is seen of a client is a run of its contract**,
  and between the methods the client holds what the contract says.
-/

namespace Tracebox

open Bytes

/-! ## The contract -/

/-- What can be seen of a client. -/
inductive Observed where
  | call (m : Method)
  | syscall (e : Syscall)
  | returned (r : Returned)
  deriving DecidableEq

/-- The call to the system that is seen. -/
def Observed.syscall? : Observed → Option Syscall
  | syscall e => some e
  | _ => none

/-- The result that is seen. -/
def Observed.returned? : Observed → Option Returned
  | returned r => some r
  | _ => none

namespace Syscall

/-- A call to the system that came to what was asked for.  One that was interrupted is made again,
and a connection that has ended gives no bytes. -/
def succeeded : Syscall → Bool
  | socket fd => decide (0 ≤ fd)
  | setsockopt _ _ _ _ ok => ok
  | connect _ _ attempt => decide (attempt ≠ .failed)
  | send _ call => decide (call ≠ .failed ∧ call ≠ .sent 0)
  | recv _ call => decide (call ≠ .failed ∧ call ≠ .got [])
  | close _ => true

/-- The socket that a call gives. -/
def obtained : Syscall → Option ℤ
  | socket fd => if 0 ≤ fd then some fd else none
  | _ => none

/-- How many bytes a call takes. -/
def taken : Syscall → ℕ
  | send _ (.sent n) => n
  | _ => 0

/-- The bytes that come with a call. -/
def arrived : Syscall → Bytes
  | recv _ (.got bytes) => bytes
  | _ => []

end Syscall

/-- An address that `connect` can use. -/
def Routable (inet_aton : Bytes → Option UInt32) (ip_addr : Bytes) (port : UInt32) : Prop :=
  port ≠ 0 ∧ port ≤ 65535 ∧ (inet_aton (cString ip_addr)).isSome

instance (inet_aton : Bytes → Option UInt32) (ip_addr : Bytes) (port : UInt32) :
    Decidable (Routable inet_aton ip_addr port) :=
  inferInstanceAs (Decidable (_ ∧ _))

/-- Between the methods a client holds a descriptor or a negative number; in a method there is also
what it was called with and the calls to the system so far. -/
inductive Contract where
  | idle (fd : ℤ)
  | busy (fd : ℤ) (m : Method) (calls : List Syscall)
  deriving DecidableEq

namespace Contract

/-- The one socket that some calls have given. -/
def socketOf (calls : List Syscall) : Option ℤ :=
  match calls.filterMap Syscall.obtained with
  | [fd] => some fd
  | _ => none

/-- What `connect` has done when it succeeds: it was given one socket, has set both timeouts on it,
and has connected it to the address. -/
def Connected (inet_aton : Bytes → Option UInt32) (ip_addr : Bytes) (port : UInt32)
    (calls : List Syscall) (fd : ℤ) : Prop :=
  socketOf calls = some fd ∧ .setsockopt fd .SO_SNDTIMEO 2 0 true ∈ calls ∧
    .setsockopt fd .SO_RCVTIMEO 2 0 true ∈ calls ∧
      ∃ sin_addr ∈ inet_aton (cString ip_addr),
        .connect fd ⟨sin_addr, port.toUInt16⟩ .connected ∈ calls

instance (inet_aton : Bytes → Option UInt32) (ip_addr : Bytes) (port : UInt32)
    (calls : List Syscall) (fd : ℤ) : Decidable (Connected inet_aton ip_addr port calls fd) :=
  inferInstanceAs (Decidable (_ ∧ _ ∧ _ ∧ _))

/-- The calls of `disconnect`. -/
def closing (fd : ℤ) : List Syscall := if 0 ≤ fd then [.close fd] else []

/-- All bytes that some calls have taken. -/
def taken (calls : List Syscall) : ℕ := (calls.map Syscall.taken).sum

/-- All bytes that came with some calls. -/
def arrived (calls : List Syscall) : Bytes := calls.flatMap Syscall.arrived

/-- The payload of the frame that has arrived on a descriptor, or the empty string when what has
arrived is no frame or a call has failed. -/
def received (fd : ℤ) (calls : List Syscall) : Bytes :=
  if 0 ≤ fd ∧ (∀ e ∈ calls, e.succeeded) ∧ frame ((arrived calls).drop 4) =
    arrived calls then
    (arrived calls).drop 4
  else []

variable (inet_aton : Bytes → Option UInt32)

/-- What a client holds when a method has returned; none when the calls to the system do not bear
the result out. -/
def outcome (fd : ℤ) (calls : List Syscall) : Method → Returned → Option ℤ
  | .connect ip_addr port, .connect ok =>
      if Routable inet_aton ip_addr port ∧ ∀ e ∈ calls, e.succeeded then
        if ok then (socketOf calls).filter fun fd => Connected inet_aton ip_addr port calls fd
        else none
      else if ok then none else some (-1)
  | .disconnect, .disconnect => if calls = closing fd then some (-1) else none
  | .destroy, .destroy => if calls = closing fd then some (-1) else none
  | .setTimeout sec usec, .setTimeout =>
      if ∃ ok ok', calls = [.setsockopt fd .SO_SNDTIMEO sec usec ok,
        .setsockopt fd .SO_RCVTIMEO sec usec ok'] then some fd else none
  | .sendData data, .sendData ok =>
      if (∀ e ∈ calls, e.fd = fd) ∧ ok = decide (0 ≤ fd ∧ data.length ≤ UINT32_MAX ∧
        (frame data).length ≤ taken calls) then some fd
      else none
  | .readData, .readData result =>
      if (∀ e ∈ calls, e.fd = fd) ∧ result = received fd calls then some fd else none
  | _, _ => none

/-- A method begins between the methods, makes its calls, and returns what `outcome` allows. -/
def step : Contract → Observed → Option Contract
  | idle fd, .call m => some (busy fd m [])
  | busy fd m calls, .syscall e => some (busy fd m (calls ++ [e]))
  | busy fd m calls, .returned r => (outcome inet_aton fd calls m r).map idle
  | _, _ => none

@[simp] lemma taken_nil : taken [] = 0 := rfl

@[simp] lemma taken_concat (calls : List Syscall) (e : Syscall) :
    taken (calls ++ [e]) = taken calls + e.taken := by
  simp [taken]

@[simp] lemma arrived_nil : arrived [] = [] := rfl

@[simp] lemma arrived_concat (calls : List Syscall) (e : Syscall) :
    arrived (calls ++ [e]) = arrived calls ++ e.arrived := by
  simp [arrived]

lemma succeeded_concat {calls : List Syscall} (h : ∀ e ∈ calls, e.succeeded) {e : Syscall}
    (he : e.succeeded) : ∀ x ∈ calls ++ [e], x.succeeded := by
  intro x hx
  rcases List.mem_append.mp hx with hx | hx
  · exact h x hx
  · rwa [List.mem_singleton.mp hx]

/-- One more call on the client's own descriptor. -/
lemma own_concat {fd : ℤ} {calls : List Syscall} (h : ∀ e ∈ calls, e.fd = fd) {e : Syscall}
    (he : e.fd = fd) : ∀ x ∈ calls ++ [e], x.fd = fd := by
  intro x hx
  rcases List.mem_append.mp hx with hx | hx
  · exact h x hx
  · rwa [List.mem_singleton.mp hx]

lemma not_succeeded_concat {calls : List Syscall} {e : Syscall} (he : ¬ e.succeeded) :
    ¬ ∀ x ∈ calls ++ [e], x.succeeded :=
  fun h => he (h e (by simp))

lemma not_succeeded_append {calls : List Syscall} (h : ¬ ∀ x ∈ calls, x.succeeded)
    (more : List Syscall) : ¬ ∀ x ∈ calls ++ more, x.succeeded :=
  fun hall => h fun x hx => hall x (List.mem_append_left _ hx)

/-- After a call that has failed there is no payload. -/
lemma received_of_failed (fd : ℤ) {calls : List Syscall} (h : ¬ ∀ x ∈ calls, x.succeeded) :
    received fd calls = [] :=
  if_neg fun hall => h hall.2.1

/-- The frame of a payload has arrived. -/
lemma received_of_frame {fd : ℤ} (hfd : 0 ≤ fd) {calls : List Syscall}
    (h : ∀ x ∈ calls, x.succeeded) {result : Bytes} (hframe : arrived calls = frame result) :
    received fd calls = result := by
  have hdrop : (arrived calls).drop 4 = result := by
    rw [hframe, frame, List.drop_left' (by simp)]
  rw [received, hdrop, if_pos ⟨hfd, h, hframe.symm⟩]

end Contract

/-! ## One client -/

/-- The method that goes on after `disconnect`. -/
def Rest.method : Rest → Method
  | disconnect => .disconnect
  | destroy => .destroy
  | connect ip_addr port => .connect ip_addr port

/-- Where a contract is when a client is at a point. -/
inductive Follows (inet_aton : Bytes → Option UInt32) : Contract → TcpClient → Prop
  | idle (fd : ℤ) : Follows inet_aton (.idle fd) ⟨fd, .idle⟩
  | gone (fd : ℤ) : Follows inet_aton (.idle fd) ⟨fd, .gone⟩
  | closing {fd : ℤ} (hfd : 0 ≤ fd) (rest : Rest) :
      Follows inet_aton (.busy fd rest.method []) ⟨-1, .closing fd rest⟩
  | creating (fd₀ : ℤ) (ip_addr : Bytes) {port : UInt32} (hport : port ≠ 0 ∧ port ≤ 65535)
      {calls : List Syscall} (hok : ∀ e ∈ calls, e.succeeded)
      (hnone : calls.filterMap Syscall.obtained = []) :
      Follows inet_aton (.busy fd₀ (.connect ip_addr port) calls) ⟨-1, .creating ip_addr port⟩
  | sendTimeout (fd₀ : ℤ) {ip_addr : Bytes} {port : UInt32}
      (hport : port ≠ 0 ∧ port ≤ 65535) {sin_addr : UInt32}
      (hknown : inet_aton (cString ip_addr) = some sin_addr) {calls : List Syscall}
      (hok : ∀ e ∈ calls, e.succeeded) {fd : ℤ}
      (hone : calls.filterMap Syscall.obtained = [fd]) :
      Follows inet_aton (.busy fd₀ (.connect ip_addr port) calls)
        ⟨-1, .sendTimeout fd ⟨sin_addr, port.toUInt16⟩⟩
  | recvTimeout (fd₀ : ℤ) {ip_addr : Bytes} {port : UInt32}
      (hport : port ≠ 0 ∧ port ≤ 65535) {sin_addr : UInt32}
      (hknown : inet_aton (cString ip_addr) = some sin_addr) {calls : List Syscall}
      (hok : ∀ e ∈ calls, e.succeeded) {fd : ℤ}
      (hone : calls.filterMap Syscall.obtained = [fd])
      (hsend : .setsockopt fd .SO_SNDTIMEO 2 0 true ∈ calls) :
      Follows inet_aton (.busy fd₀ (.connect ip_addr port) calls)
        ⟨-1, .recvTimeout fd ⟨sin_addr, port.toUInt16⟩⟩
  | connecting (fd₀ : ℤ) {ip_addr : Bytes} {port : UInt32}
      (hport : port ≠ 0 ∧ port ≤ 65535) {sin_addr : UInt32}
      (hknown : inet_aton (cString ip_addr) = some sin_addr) {calls : List Syscall}
      (hok : ∀ e ∈ calls, e.succeeded) {fd : ℤ}
      (hone : calls.filterMap Syscall.obtained = [fd])
      (hsend : .setsockopt fd .SO_SNDTIMEO 2 0 true ∈ calls)
      (hrecv : .setsockopt fd .SO_RCVTIMEO 2 0 true ∈ calls) :
      Follows inet_aton (.busy fd₀ (.connect ip_addr port) calls)
        ⟨-1, .connecting fd ⟨sin_addr, port.toUInt16⟩⟩
  | unaddressed (fd₀ : ℤ) {ip_addr : Bytes} {port : UInt32}
      (haddress : ¬ Routable inet_aton ip_addr port) (calls : List Syscall) (fd : ℤ) :
      Follows inet_aton (.busy fd₀ (.connect ip_addr port) calls) ⟨-1, .unaddressed fd⟩
  | failing (fd₀ : ℤ) (ip_addr : Bytes) (port : UInt32) {calls : List Syscall}
      (hbad : ¬ ∀ e ∈ calls, e.succeeded) (fd : ℤ) :
      Follows inet_aton (.busy fd₀ (.connect ip_addr port) calls) ⟨-1, .failing fd⟩
  | settingSend (fd sec usec : ℤ) :
      Follows inet_aton (.busy fd (.setTimeout sec usec) []) ⟨fd, .settingSend sec usec⟩
  | settingRecv (fd sec usec : ℤ) (ok : Bool) :
      Follows inet_aton (.busy fd (.setTimeout sec usec)
        [.setsockopt fd .SO_SNDTIMEO sec usec ok]) ⟨fd, .settingRecv sec usec⟩
  | sending (fd : ℤ) {data : Bytes} (hdata : data.length ≤ UINT32_MAX) {calls : List Syscall}
      (hown : ∀ e ∈ calls, e.fd = fd) (hlt : Contract.taken calls < (frame data).length) :
      Follows inet_aton (.busy fd (.sendData data) calls)
        ⟨fd, .sending ((frame data).drop (Contract.taken calls))⟩
  | reading (fd : ℤ) {calls : List Syscall} (hown : ∀ e ∈ calls, e.fd = fd)
      (hok : ∀ e ∈ calls, e.succeeded) {st : ReadState}
      (hconsumed : st.consumed = Contract.arrived calls) :
      Follows inet_aton (.busy fd .readData calls) ⟨fd, .reading st⟩

namespace TcpClient

variable {inet_aton : Bytes → Option UInt32} {s : Contract} {c : TcpClient} {a : Answer}
  {e : Syscall} {r : TcpClient × Option Returned}

/-- What is seen when a method goes on or returns. -/
def told (r : TcpClient × Option Returned) : List Observed := r.2.toList.map .returned

/-- The contract after what is seen of a method. -/
def Keeps (inet_aton : Bytes → Option UInt32) (s : Contract) (seen : List Observed)
    (c : TcpClient) : Prop :=
  ∃ s', Machine.run (Contract.step inet_aton) s seen = some s' ∧ Follows inet_aton s' c

/-- A method goes on. -/
lemma keeps_on {c' : TcpClient} (h : Follows inet_aton s c') :
    Keeps inet_aton s (told (c', none)) c' :=
  ⟨s, rfl, h⟩

/-- A method returns what its calls to the system bear out. -/
lemma keeps_returned {fd fd' : ℤ} {m : Method} {calls : List Syscall} {x : Returned}
    (hout : Contract.outcome inet_aton fd calls m x = some fd') {point : Point}
    (hpoint : point = .idle ∨ point = .gone) :
    Keeps inet_aton (.busy fd m calls) (told (⟨fd', point⟩, some x)) ⟨fd', point⟩ := by
  refine ⟨.idle fd', ?_, ?_⟩
  · simp [told, Machine.run, Contract.step, hout]
  · rcases hpoint with rfl | rfl
    · exact .idle fd'
    · exact .gone fd'

/-- A call to the system, and what is seen after it. -/
lemma keeps_syscall {fd : ℤ} {m : Method} {calls : List Syscall}
    (h : Keeps inet_aton (.busy fd m (calls ++ [e])) (told r) r.1) :
    Keeps inet_aton (.busy fd m calls) (.syscall e :: told r) r.1 := by
  obtain ⟨s', hrun, hs'⟩ := h
  exact ⟨s', Machine.run_cons_iff.mpr ⟨_, rfl, hrun⟩, hs'⟩

/-- `connect` fails. -/
lemma outcome_refused (fd : ℤ) {ip_addr : Bytes} {port : UInt32} {calls : List Syscall}
    (h : ¬ (Routable inet_aton ip_addr port ∧ ∀ e ∈ calls, e.succeeded)) :
    Contract.outcome inet_aton fd calls (.connect ip_addr port) (.connect false) = some (-1) := by
  simp only [Contract.outcome, if_neg h, Bool.false_eq_true, if_false]

/-- `connect` succeeds. -/
lemma outcome_connected (fd₀ : ℤ) {ip_addr : Bytes} {port : UInt32}
    (hport : port ≠ 0 ∧ port ≤ 65535) {sin_addr : UInt32}
    (hknown : inet_aton (cString ip_addr) = some sin_addr) {calls : List Syscall}
    (hok : ∀ e ∈ calls, e.succeeded) {fd : ℤ}
    (hone : calls.filterMap Syscall.obtained = [fd])
    (hsend : .setsockopt fd .SO_SNDTIMEO 2 0 true ∈ calls)
    (hrecv : .setsockopt fd .SO_RCVTIMEO 2 0 true ∈ calls)
    (hconnect : .connect fd ⟨sin_addr, port.toUInt16⟩ .connected ∈ calls) :
    Contract.outcome inet_aton fd₀ calls (.connect ip_addr port) (.connect true) = some fd := by
  have hroutable : Routable inet_aton ip_addr port := ⟨hport.1, hport.2, by simp [hknown]⟩
  have hsocket : Contract.socketOf calls = some fd := by rw [Contract.socketOf, hone]
  have hconnected : Contract.Connected inet_aton ip_addr port calls fd :=
    ⟨hsocket, hsend, hrecv, sin_addr, hknown, hconnect⟩
  simp only [Contract.outcome, if_pos (And.intro hroutable hok), if_true, hsocket,
    Option.filter_some, hconnected, decide_true]

/-- `sendData` fails. -/
lemma outcome_unsent {fd : ℤ} {data : Bytes} {calls : List Syscall}
    (hown : ∀ e ∈ calls, e.fd = fd) (h : ¬ (0 ≤ fd ∧ data.length ≤ UINT32_MAX ∧
      (frame data).length ≤ Contract.taken calls)) :
    Contract.outcome inet_aton fd calls (.sendData data) (.sendData false) = some fd :=
  if_pos ⟨hown, (decide_eq_false h).symm⟩

/-- After `disconnect`. -/
lemma proceed_keeps (fd : ℤ) {point : Point} (rest : Rest) :
    Keeps inet_aton (.busy fd rest.method (Contract.closing fd)) (told (proceed ⟨-1, point⟩ rest))
      (proceed ⟨-1, point⟩ rest).1 := by
  cases rest with
  | disconnect =>
      have hout : Contract.outcome inet_aton fd (Contract.closing fd) .disconnect .disconnect =
        some (-1) := if_pos rfl
      exact keeps_returned hout (.inl rfl)
  | destroy =>
      have hout : Contract.outcome inet_aton fd (Contract.closing fd) .destroy .destroy =
        some (-1) := if_pos rfl
      exact keeps_returned hout (.inr rfl)
  | connect ip_addr port =>
      have hok : ∀ e ∈ Contract.closing fd, e.succeeded := by
        intro e he
        rw [Contract.closing] at he
        split_ifs at he
        · rw [List.mem_singleton.mp he]
          rfl
        · cases he
      have hnone : (Contract.closing fd).filterMap Syscall.obtained = [] := by
        rw [Contract.closing]
        split_ifs <;> rfl
      by_cases hport : port = 0 ∨ 65535 < port
      · simp only [proceed, if_pos hport]
        refine keeps_returned (outcome_refused fd fun h => ?_) (.inl rfl)
        rcases hport with hzero | hbig
        · exact h.1.1 hzero
        · exact absurd hbig (UInt32.not_lt.mpr h.1.2.1)
      · simp only [proceed, if_neg hport]
        obtain ⟨hzero, hbig⟩ := not_or.mp hport
        exact keeps_on (.creating fd ip_addr ⟨hzero, UInt32.not_lt.mp hbig⟩ hok hnone)

/-- **A method up to its first call to the system.** -/
lemma enter_keeps (hidle : c.point = .idle) (m : Method) :
    Keeps inet_aton (.idle c.fd_) (.call m :: told (c.enter m)) (c.enter m).1 := by
  obtain ⟨fd, point⟩ := c
  cases hidle
  have hcall : ∀ {r : TcpClient × Option Returned},
      Keeps inet_aton (.busy fd m []) (told r) r.1 →
        Keeps inet_aton (.idle fd) (.call m :: told r) r.1 := by
    rintro r ⟨s', hrun, hs'⟩
    exact ⟨s', Machine.run_cons_iff.mpr ⟨_, rfl, hrun⟩, hs'⟩
  have hdisconnect : ∀ rest : Rest, Keeps inet_aton (.busy fd rest.method [])
      (told (disconnect ⟨fd, .idle⟩ rest)) (disconnect ⟨fd, .idle⟩ rest).1 := by
    intro rest
    by_cases hfd : 0 ≤ fd
    · simp only [disconnect, if_pos hfd]
      exact keeps_on (.closing hfd rest)
    · have hclosed : Contract.closing fd = [] := if_neg hfd
      simp only [disconnect, if_neg hfd]
      exact hclosed ▸ proceed_keeps fd rest
  cases m with
  | connect ip_addr port => exact hcall (hdisconnect (.connect ip_addr port))
  | disconnect => exact hcall (hdisconnect .disconnect)
  | destroy => exact hcall (hdisconnect .destroy)
  | setTimeout sec usec => exact hcall (keeps_on (.settingSend fd sec usec))
  | sendData data =>
      refine hcall ?_
      by_cases hlong : UINT32_MAX < data.length
      · simp only [enter, sendData, if_pos hlong]
        exact keeps_returned
          (outcome_unsent (by simp) fun h => absurd h.2.1 (not_le.mpr hlong)) (.inl rfl)
      · simp only [enter, sendData, if_neg hlong]
        exact keeps_on (.sending fd (not_lt.mp hlong) (by simp) (by simp [length_frame]))
  | readData => exact hcall (keeps_on (.reading fd (by simp) (by simp) rfl))

/-- `sendData` has sent the whole frame. -/
lemma outcome_sent {fd : ℤ} {data : Bytes} {calls : List Syscall}
    (hown : ∀ e ∈ calls, e.fd = fd)
    (h : 0 ≤ fd ∧ data.length ≤ UINT32_MAX ∧ (frame data).length ≤ Contract.taken calls) :
    Contract.outcome inet_aton fd calls (.sendData data) (.sendData true) = some fd :=
  if_pos ⟨hown, (decide_eq_true h).symm⟩

lemma outcome_read {fd : ℤ} {calls : List Syscall} (hown : ∀ e ∈ calls, e.fd = fd)
    {result : Bytes} (h : result = Contract.received fd calls) :
    Contract.outcome inet_aton fd calls .readData (.readData result) = some fd :=
  if_pos ⟨hown, h⟩

/-- One iteration of the loop of `sendDataWith`. -/
lemma sent_keeps (fd : ℤ) {data : Bytes} (hdata : data.length ≤ UINT32_MAX)
    {calls : List Syscall} (hown : ∀ e ∈ calls, e.fd = fd)
    (hlt : Contract.taken calls < (frame data).length) {call : SendCall}
    (hbad : fd < 0 → call = .failed) {left : Bytes}
    (hleft : left = (frame data).drop (Contract.taken calls)) :
    Keeps inet_aton (.busy fd (.sendData data) calls)
      (.syscall (.send fd call) :: told (sent ⟨fd, .sending left⟩ left call))
      (sent ⟨fd, .sending left⟩ left call).1 := by
  have hown' : ∀ call : SendCall, ∀ e ∈ calls ++ [Syscall.send fd call], e.fd = fd := fun call =>
    Contract.own_concat hown rfl
  -- what is left of the buffer is what the calls so far have not taken
  have hmore : ∀ call : SendCall, Contract.taken (calls ++ [.send fd call]) <
    (frame data).length →
      Keeps inet_aton (.busy fd (.sendData data) (calls ++ [.send fd call]))
        (told (⟨fd, .sending (left.drop (Syscall.send fd call).taken)⟩, none))
        ⟨fd, .sending (left.drop (Syscall.send fd call).taken)⟩ := by
    intro call hlt'
    have h := keeps_on (Follows.sending fd hdata (hown' call) hlt' : Follows inet_aton _ _)
    rwa [Contract.taken_concat, ← List.drop_drop, ← hleft] at h
  have hstop : ∀ call : SendCall, (Syscall.send fd call).taken = 0 →
      Keeps inet_aton (.busy fd (.sendData data) (calls ++ [.send fd call]))
        (told (⟨fd, .idle⟩, some (.sendData false))) ⟨fd, .idle⟩ := by
    intro call hnone
    refine keeps_returned (outcome_unsent (hown' call) fun h => ?_) (.inl rfl)
    rw [Contract.taken_concat, hnone] at h
    exact absurd h.2.2 (not_le.mpr hlt)
  cases call with
  | sent n =>
      have hfd : 0 ≤ fd := not_lt.mp fun hneg => by cases hbad hneg
      refine keeps_syscall ?_
      by_cases hn : n = 0
      · subst hn
        exact hstop _ rfl
      · by_cases hall : left.length ≤ n
        · have hdone : sent ⟨fd, .sending left⟩ left (.sent n) =
              (⟨fd, .idle⟩, some (.sendData true)) := by
            rw [sent, if_neg hn, if_pos hall]
          rw [hdone]
          refine keeps_returned (outcome_sent (hown' _) ⟨hfd, hdata, ?_⟩) (.inl rfl)
          rw [hleft, List.length_drop] at hall
          rw [Contract.taken_concat]
          simp only [Syscall.taken]
          omega
        · have hon : sent ⟨fd, .sending left⟩ left (.sent n) =
              (⟨fd, .sending (left.drop n)⟩, none) := by
            rw [sent, if_neg hn, if_neg hall]
          rw [hon]
          refine hmore (.sent n) ?_
          rw [hleft, List.length_drop] at hall
          rw [Contract.taken_concat]
          simp only [Syscall.taken]
          omega
  | interrupted => exact keeps_syscall (hmore .interrupted (by rwa [Contract.taken_concat]))
  | failed => exact keeps_syscall (hstop .failed rfl)

/-- One iteration of a loop of `readDataWith`. -/
lemma received_keeps (fd : ℤ) {calls : List Syscall} (hown : ∀ e ∈ calls, e.fd = fd)
    (hok : ∀ e ∈ calls, e.succeeded) {st : ReadState}
    (hconsumed : st.consumed = Contract.arrived calls) {call : RecvCall}
    (hbad : fd < 0 → call = .failed)
    (hwanted : ∀ bytes, call = .got bytes → bytes.length ≤ st.wanted) :
    Keeps inet_aton (.busy fd .readData calls)
      (.syscall (.recv fd call) :: told (received ⟨fd, .reading st⟩ (st.recv call)))
      (received ⟨fd, .reading st⟩ (st.recv call)).1 := by
  refine keeps_syscall ?_
  have hown' : ∀ e ∈ calls ++ [Syscall.recv fd call], e.fd = fd := Contract.own_concat hown rfl
  -- a call that gives nothing ends the loop
  have hend : ¬ (Syscall.recv fd call).succeeded → st.recv call = .returned [] →
      Keeps inet_aton (.busy fd .readData (calls ++ [.recv fd call]))
        (told (received ⟨fd, .reading st⟩ (st.recv call)))
        (received ⟨fd, .reading st⟩ (st.recv call)).1 := by
    intro hno hreturn
    rw [hreturn]
    exact keeps_returned (outcome_read hown'
      (Contract.received_of_failed fd (Contract.not_succeeded_concat hno)).symm) (.inl rfl)
  cases call with
  | got bytes =>
      have hfd : 0 ≤ fd := not_lt.mp fun hneg => by cases hbad hneg
      cases bytes with
      | nil => exact hend (by simp [Syscall.succeeded]) (by cases st <;> rfl)
      | cons b bs =>
          have hall := Contract.succeeded_concat hok (e := .recv fd (.got (b :: bs)))
            (by simp [Syscall.succeeded])
          have hle := hwanted _ rfl
          have hne : b :: bs ≠ [] := List.cons_ne_nil b bs
          cases hstep : st.recv (.got (b :: bs)) with
          | reading st' =>
              refine keeps_on (.reading fd hown' hall ?_)
              rw [ReadState.recv_reading hne hle hstep, hconsumed, Contract.arrived_concat]
              rfl
          | returned result =>
              refine keeps_returned (outcome_read hown' ?_) (.inl rfl)
              refine (Contract.received_of_frame hfd hall ?_).symm
              rw [(ReadState.recv_returned hne hle hstep).1, hconsumed, Contract.arrived_concat]
              rfl
  | interrupted =>
      have hsame : st.recv .interrupted = .reading st := by cases st <;> rfl
      rw [hsame]
      refine keeps_on (.reading fd hown' (Contract.succeeded_concat hok rfl) ?_)
      rw [Contract.arrived_concat, hconsumed]
      exact (List.append_nil _).symm
  | failed => exact hend (by simp [Syscall.succeeded]) (by cases st <;> rfl)

/-- `connect` with its new descriptor. -/
lemma created_keeps (fd₀ : ℤ) (ip_addr : Bytes) {port : UInt32}
    (hport : port ≠ 0 ∧ port ≤ 65535)
    {calls : List Syscall} (hok : ∀ e ∈ calls, e.succeeded)
    (hnone : calls.filterMap Syscall.obtained = []) (fd : ℤ) :
    Keeps inet_aton (.busy fd₀ (.connect ip_addr port) calls)
      (.syscall (.socket fd) ::
        told (created inet_aton ⟨-1, .creating ip_addr port⟩ ip_addr port fd))
      (created inet_aton ⟨-1, .creating ip_addr port⟩ ip_addr port fd).1 := by
  refine keeps_syscall ?_
  by_cases hfd : fd < 0
  · have hno : ¬ (Syscall.socket fd).succeeded := by
      simpa [Syscall.succeeded] using hfd
    rw [created, if_pos hfd]
    exact keeps_returned (outcome_refused fd₀ fun h => Contract.not_succeeded_concat hno h.2)
      (.inl rfl)
  · have hnonneg : 0 ≤ fd := not_lt.mp hfd
    have hall := Contract.succeeded_concat hok (e := .socket fd) (decide_eq_true hnonneg)
    have hone : (calls ++ [Syscall.socket fd]).filterMap Syscall.obtained = [fd] := by
      simp [hnone, Syscall.obtained, hnonneg]
    rw [created, if_neg hfd]
    cases hknown : inet_aton (cString ip_addr) with
    | none =>
        exact keeps_on (.unaddressed fd₀ (fun h => by simp [Routable, hknown] at h) _ fd)
    | some sin_addr =>
        exact keeps_on (.sendTimeout fd₀ hport hknown hall hone)

/-- **A method from one call to the system to the next**, whatever the system answers. -/
lemma resume_keeps (hs : Follows inet_aton s c) (h : c.resume inet_aton a = some (e, r))
    (hsend : ∀ call, a = .send call → c.fd_ < 0 → call = .failed)
    (hrecv : ∀ call, a = .recv call → c.fd_ < 0 → call = .failed)
    (hwanted : ∀ bytes st, a = .recv (.got bytes) → c.point = .reading st →
      bytes.length ≤ st.wanted) :
    Keeps inet_aton s (.syscall e :: told r) r.1 := by
  cases hs with
  | idle fd => cases a <;> cases h
  | gone fd => cases a <;> cases h
  | @closing fd hfd rest =>
      cases a with
      | close =>
          cases h
          have hclosed : Contract.closing fd = [.close fd] := if_pos hfd
          exact keeps_syscall (hclosed ▸ proceed_keeps fd rest)
      | _ => cases h
  | creating fd₀ ip_addr hport hok hnone =>
      cases a with
      | socket fd =>
          cases h
          exact created_keeps fd₀ ip_addr hport hok hnone fd
      | _ => cases h
  | @sendTimeout fd₀ ip_addr port hport sin_addr hknown calls hok fd hone =>
      cases a with
      | setsockopt ok =>
          cases h
          cases ok with
          | true =>
              exact keeps_syscall (keeps_on (.recvTimeout fd₀ hport hknown
                (Contract.succeeded_concat hok rfl) (by simp [hone, Syscall.obtained])
                (by simp)))
          | false =>
              exact keeps_syscall (keeps_on (.failing fd₀ ip_addr port
                (Contract.not_succeeded_concat (by simp [Syscall.succeeded])) fd))
      | _ => cases h
  | @recvTimeout fd₀ ip_addr port hport sin_addr hknown calls hok fd hone hsent =>
      cases a with
      | setsockopt ok =>
          cases h
          cases ok with
          | true =>
              exact keeps_syscall (keeps_on (.connecting fd₀ hport hknown
                (Contract.succeeded_concat hok rfl) (by simp [hone, Syscall.obtained])
                (List.mem_append_left _ hsent) (by simp)))
          | false =>
              exact keeps_syscall (keeps_on (.failing fd₀ ip_addr port
                (Contract.not_succeeded_concat (by simp [Syscall.succeeded])) fd))
      | _ => cases h
  | @connecting fd₀ ip_addr port hport sin_addr hknown calls hok fd hone hsent hreceived =>
      cases a with
      | connect attempt =>
          have hone' : ∀ attempt, (calls ++ [Syscall.connect fd ⟨sin_addr, port.toUInt16⟩
              attempt]).filterMap Syscall.obtained = [fd] := fun attempt => by
            simp [hone, Syscall.obtained]
          cases attempt with
          | connected =>
              cases h
              exact keeps_syscall (keeps_returned (outcome_connected fd₀ hport hknown
                (Contract.succeeded_concat hok rfl) (hone' _) (List.mem_append_left _ hsent)
                (List.mem_append_left _ hreceived) (by simp)) (.inl rfl))
          | interrupted =>
              cases h
              exact keeps_syscall (keeps_on (.connecting fd₀ hport hknown
                (Contract.succeeded_concat hok rfl) (hone' _) (List.mem_append_left _ hsent)
                (List.mem_append_left _ hreceived)))
          | failed =>
              cases h
              exact keeps_syscall (keeps_on (.failing fd₀ ip_addr port
                (Contract.not_succeeded_concat (by simp [Syscall.succeeded])) fd))
      | _ => cases h
  | unaddressed fd₀ haddress calls fd =>
      cases a with
      | close =>
          cases h
          exact keeps_syscall
            (keeps_returned (outcome_refused fd₀ fun h => haddress h.1) (.inl rfl))
      | _ => cases h
  | failing fd₀ ip_addr port hbad fd =>
      cases a with
      | close =>
          cases h
          exact keeps_syscall (keeps_returned
            (outcome_refused fd₀ fun h => Contract.not_succeeded_append hbad _ h.2) (.inl rfl))
      | _ => cases h
  | settingSend fd sec usec =>
      cases a with
      | setsockopt ok =>
          cases h
          exact keeps_syscall (keeps_on (.settingRecv fd sec usec ok))
      | _ => cases h
  | settingRecv fd sec usec ok =>
      cases a with
      | setsockopt ok' =>
          cases h
          have hout : Contract.outcome inet_aton fd ([.setsockopt fd .SO_SNDTIMEO sec usec ok] ++
              [.setsockopt fd .SO_RCVTIMEO sec usec ok']) (.setTimeout sec usec) .setTimeout =
            some fd := if_pos ⟨ok, ok', rfl⟩
          exact keeps_syscall (keeps_returned hout (.inl rfl))
      | _ => cases h
  | sending fd hdata hown hlt =>
      cases a with
      | send call =>
          cases h
          exact sent_keeps fd hdata hown hlt (hsend call rfl) rfl
      | _ => cases h
  | reading fd hown hok hconsumed =>
      cases a with
      | recv call =>
          cases h
          exact received_keeps fd hown hok hconsumed (hrecv call rfl)
            fun bytes heq => hwanted bytes _ (heq ▸ rfl) rfl
      | _ => cases h

end TcpClient

/-! ## The process -/

namespace Process

/-- What belongs to a client. -/
def mine {α : Type*} (i : ℕ) (x : ℕ × α) : Option α := if x.1 = i then some x.2 else none

/-- The call of a method of a client. -/
def Event.calls (i : ℕ) : Event → List Observed
  | call j m => if j = i then [.call m] else []
  | _ => []

/-- What is seen of a client at a step: the call, and what the step adds to the calls to the system
and to the results. -/
def seen (i : ℕ) (p : Process) (e : Event) (p' : Process) : List Observed :=
  e.calls i ++ ((p'.log.drop p.log.length).filterMap (mine i)).map .syscall ++
    ((p'.returns.drop p.returns.length).filterMap (mine i)).map .returned

/-- `recv` gives no more than it was asked for. -/
def withinWanted : RecvCall → Point → Bool
  | .got bytes, .reading st => decide (bytes.length ≤ st.wanted)
  | _, _ => true

/-- What the system promises: `send` and `recv` on a number that is no descriptor fail, and `recv`
gives no more than it was asked for. -/
def Honest (p : Process) : Event → Prop
  | .answer i (.send call) => ∀ c ∈ p.clients[i]?, c.fd_ < 0 → call = .failed
  | .answer i (.recv call) =>
      ∀ c ∈ p.clients[i]?, (c.fd_ < 0 → call = .failed) ∧ withinWanted call c.point
  | _ => True

instance (p : Process) (e : Event) : Decidable (p.Honest e) :=
  match e with
  | .answer _ (.send _) => inferInstanceAs (Decidable (∀ c ∈ _, _))
  | .answer _ (.recv _) => inferInstanceAs (Decidable (∀ c ∈ _, _))
  | .answer _ (.socket _) | .answer _ (.setsockopt _) | .answer _ (.connect _) | .answer _ .close =>
      isTrue trivial
  | .create | .call _ _ => isTrue trivial

variable {inet_aton : Bytes → Option UInt32} {p p' : Process} {e : Event} {i j : ℕ}
  {c : TcpClient} {s : Contract}

/-- What is seen of a client when it goes on. -/
lemma seen_update (log : List Syscall) (r : TcpClient × Option Returned) :
    seen i p e (p.update i (log.map fun x => (i, x)) r) =
      e.calls i ++ log.map .syscall ++ TcpClient.told r := by
  simp [seen, update, mine, TcpClient.told, List.filterMap_map, Function.comp_def]

/-- Nothing is seen of a client when another one goes on. -/
lemma seen_update_ne (h : j ≠ i) (he : e.calls i = []) (log : List Syscall)
    (r : TcpClient × Option Returned) :
    seen i p e (p.update j (log.map fun x => (j, x)) r) = [] := by
  simp [seen, update, mine, he, h, List.filterMap_map, Function.comp_def]

/-- A client, as long as there is one, is where its contract is. -/
structure Abides (inet_aton : Bytes → Option UInt32) (i : ℕ) (p : Process)
    (s : Contract) : Prop where
  follows : ∀ c, p.clients[i]? = some c → Follows inet_aton s c
  later : p.clients.length ≤ i → s = .idle (-1)

/-- One client goes on, and what is seen of it keeps the contract. -/
lemma Abides.update (h : p.Abides inet_aton i s) (hj : p.clients[j]? = some c) (log : List Syscall)
    {r : TcpClient × Option Returned} (hcalls : j ≠ i → e.calls i = [])
    (hkeeps : j = i → TcpClient.Keeps inet_aton s
      (e.calls i ++ log.map .syscall ++ TcpClient.told r) r.1) :
    ∃ s', Machine.run (Contract.step inet_aton) s
        (seen i p e (p.update j (log.map fun x => (j, x)) r)) = some s' ∧
      (p.update j (log.map fun x => (j, x)) r).Abides inet_aton i s' := by
  obtain ⟨hlt, -⟩ := List.getElem?_eq_some_iff.mp hj
  by_cases hji : j = i
  · subst hji
    obtain ⟨s', hrun, hs'⟩ := hkeeps rfl
    rw [seen_update]
    refine ⟨s', hrun, ⟨fun d hd => ?_, fun hle => ?_⟩⟩
    · rw [Process.update, List.getElem?_set_self hlt] at hd
      cases hd
      exact hs'
    · rw [Process.update, List.length_set] at hle
      exact absurd hlt (not_lt.mpr hle)
  · rw [seen_update_ne hji (hcalls hji)]
    refine ⟨s, rfl,
      ⟨fun d hd => ?_, fun hle => h.later (by simpa [Process.update] using hle)⟩⟩
    rw [Process.update, List.getElem?_set_ne hji] at hd
    exact h.follows d hd

/-- **One step of any client.** -/
lemma Abides.step (h : p.Abides inet_aton i s) (hp : p.Honest e)
    (hstep : p.step inet_aton e = some p') :
    ∃ s', Machine.run (Contract.step inet_aton) s (seen i p e p') = some s' ∧
      p'.Abides inet_aton i s' := by
  cases e with
  | create =>
      cases hstep
      refine ⟨s, by simp [seen, Event.calls, Machine.run], ⟨fun d hd => ?_, fun hle => ?_⟩⟩
      · by_cases hlt : i < p.clients.length
        · rw [List.getElem?_append_left hlt] at hd
          exact h.follows d hd
        · rw [List.getElem?_append_right (not_lt.mp hlt)] at hd
          obtain rfl := List.mem_singleton.mp (List.mem_of_getElem? hd)
          rw [h.later (not_lt.mp hlt)]
          exact .idle (-1)
      · rw [List.length_append] at hle
        exact h.later (by omega)
  | call j m =>
      obtain ⟨c, hj, hcall⟩ := Option.bind_eq_some_iff.mp hstep
      obtain ⟨r, hr, rfl⟩ := Option.map_eq_some_iff.mp hcall
      rw [TcpClient.call] at hr
      split_ifs at hr with hidle
      cases hr
      refine h.update hj [] (fun hji => if_neg hji) fun hji => ?_
      subst hji
      have hfollows := h.follows c hj
      have hs : s = .idle c.fd_ := by
        cases hfollows with
        | idle fd => rfl
        | _ => cases hidle
      rw [hs, Event.calls, if_pos rfl]
      exact TcpClient.enter_keeps hidle m
  | answer j a =>
      obtain ⟨c, hj, hanswer⟩ := Option.bind_eq_some_iff.mp hstep
      obtain ⟨⟨e, r⟩, hr, rfl⟩ := Option.map_eq_some_iff.mp hanswer
      refine h.update hj [e] (fun _ => rfl) fun hji => ?_
      subst hji
      refine TcpClient.resume_keeps (h.follows c hj) hr ?_ ?_ ?_
      · rintro call rfl
        exact hp c hj
      · rintro call rfl
        exact (hp c hj).1
      · rintro bytes st rfl hpoint
        have hle := (hp c hj).2
        rw [hpoint] at hle
        exact of_decide_eq_true hle

/-- What is seen of a client at a step is what the step records of it. -/
lemma seen_recorded (h : p.step inet_aton e = some p') :
    p'.log.filterMap (mine i) =
        p.log.filterMap (mine i) ++ (seen i p e p').filterMap Observed.syscall? ∧
      p'.returns.filterMap (mine i) =
        p.returns.filterMap (mine i) ++ (seen i p e p').filterMap Observed.returned? := by
  have hcalls : (e.calls i).filterMap Observed.syscall? = [] ∧
      (e.calls i).filterMap Observed.returned? = [] := by
    cases e with
    | call j m =>
        rw [Event.calls]
        split_ifs <;> exact ⟨rfl, rfl⟩
    | _ => exact ⟨rfl, rfl⟩
  have hkept : p.log <+: p'.log ∧ p.returns <+: p'.returns := by
    cases e with
    | create =>
        cases h
        exact ⟨List.prefix_refl _, List.prefix_refl _⟩
    | call j m =>
        obtain ⟨c, -, hcall⟩ := Option.bind_eq_some_iff.mp h
        obtain ⟨r, -, rfl⟩ := Option.map_eq_some_iff.mp hcall
        exact ⟨List.prefix_append .., List.prefix_append ..⟩
    | answer j a =>
        obtain ⟨c, -, hanswer⟩ := Option.bind_eq_some_iff.mp h
        obtain ⟨r, -, rfl⟩ := Option.map_eq_some_iff.mp hanswer
        exact ⟨List.prefix_append .., List.prefix_append ..⟩
  obtain ⟨⟨log, hlog⟩, ⟨returns, hreturns⟩⟩ := hkept
  simp [seen, hcalls.1, hcalls.2, ← hlog, ← hreturns, List.filterMap_map, Function.comp_def,
    Observed.syscall?, Observed.returned?]

/-- **Every client keeps its contract**, whatever other clients do in between: what its methods were
called with, the calls to the system they made and what they returned, in the order these happened,
are a run of the contract.  Between its methods a client holds what the contract says. -/
theorem results_conform {events : List Event}
    (hhonest : Machine.Throughout (step inet_aton) Honest {} events)
    (hrun : Machine.run (step inet_aton) {} events = some p) (hi : p.clients[i]? = some c) :
    let trace := Protocol.trace (step inet_aton) (seen i) {} events
    trace.filterMap Observed.syscall? = p.log.filterMap (mine i) ∧
      trace.filterMap Observed.returned? = p.returns.filterMap (mine i) ∧
      ∃ s, Machine.run (Contract.step inet_aton) (.idle (-1)) trace = some s ∧
        (c.point = .idle → s = .idle c.fd_) := by
  intro trace
  have hlog := Protocol.trace_recorded (seen i) (fun _ _ _ hstep => (seen_recorded hstep).1) hrun
  have hreturns := Protocol.trace_recorded (seen i)
    (fun _ _ _ hstep => (seen_recorded hstep).2) hrun
  have hstart : ({} : Process).Abides inet_aton i (.idle (-1)) := ⟨by simp, fun _ => rfl⟩
  obtain ⟨s, hs, habides⟩ := Protocol.trace_simulates
    (fun _ _ _ _ h hp hstep => h.step hp hstep) hstart hhonest hrun
  refine ⟨by simpa using hlog.symm, by simpa using hreturns.symm, s, hs, fun hidle => ?_⟩
  cases habides.follows c hi with
  | idle fd => rfl
  | _ => cases hidle

/-- A client that is refused and one that sends a frame and reads one, in turn. -/
def twoCallers : List Event :=
  [.create, .create, .call 0 (.connect (ascii "127.0.0.1") 6000), .answer 0 (.socket 3),
    .call 1 (.connect (ascii "localhost") 6000), .answer 0 (.setsockopt true),
      .answer 1 (.socket 4),
    .answer 0 (.setsockopt true), .answer 1 .close, .answer 0 (.connect .interrupted),
    .answer 0 (.connect .connected), .call 1 (.sendData [7]), .call 0 (.sendData [7, 8]),
    .answer 1 (.send .failed), .answer 0 (.send (.sent 5)), .answer 0 (.send (.sent 1)),
    .call 0 .readData, .answer 0 (.recv (.got [1, 0, 0, 0])), .answer 0 (.recv (.got [9])),
    .call 1 .destroy]

lemma honest_twoCallers : Machine.Throughout (step loopback) Honest {} twoCallers := by
  decide +kernel

/-- The first client holds its socket, the second one holds none. -/
theorem results_conform_two : ∃ p, Machine.run (step loopback) {} twoCallers = some p ∧
    p.returns = [(1, .connect false), (0, .connect true), (1, .sendData false), (0, .sendData true),
      (0, .readData [9]), (1, .destroy)] ∧
    Machine.run (Contract.step loopback) (.idle (-1))
      (Protocol.trace (step loopback) (seen 0) {} twoCallers) = some (.idle 3) := by
  have hstate : ∀ p ∈ Machine.run (step loopback) {} twoCallers,
      p.clients[0]? = some ⟨3, .idle⟩ ∧
        p.returns = [(1, .connect false), (0, .connect true), (1, .sendData false),
          (0, .sendData true), (0, .readData [9]), (1, .destroy)] := by
    decide +kernel
  obtain ⟨p, hrun⟩ : ∃ p, Machine.run (step loopback) {} twoCallers = some p :=
    Option.isSome_iff_exists.mp (by decide +kernel)
  obtain ⟨hclient, hreturns⟩ := hstate p hrun
  obtain ⟨-, -, s, hs, hidle⟩ := results_conform honest_twoCallers hrun hclient
  exact ⟨p, hrun, hreturns, by rw [hs, hidle rfl]⟩

end Process

end Tracebox
