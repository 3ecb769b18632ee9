import Tracebox.Net.Lifecycle

/-!
# A `start` that fails

`Server::start` has many ways to fail, after more or less of its work, and one routine that cleans
up behind all of them.  `closeStartupDescriptors` undoes every member but one: the port that
`getsockname` reported stays behind in `bound_port_`, which only `stop` resets.

* `start_eq` — `start` up to the port, and what comes after it.
* `giveUp_stopped` — what the clean-up undoes.
* `failed_start_iff` — **a failed `start` leaves a stopped server exactly when it did not get a
  port**, in every run whose failing starts do not.
-/

namespace Tracebox

namespace Server

variable {k : Surroundings}

/-! ## Members -/

/-- The state of a stopped server. -/
structure Stopped (s : Server) : Prop where
  state : s.state_ = .kStopped
  epoll : s.epoll_fd_ = -1
  wakeup : s.wakeup_fd_ = -1
  listening : s.listening_fd_ = -1
  clients : s.client_fd_ = []
  port : s.bound_port_ = 0

/-- A descriptor member is `-1` or names a descriptor. -/
structure Tidy (s : Server) : Prop where
  epoll : s.epoll_fd_ < 0 → s.epoll_fd_ = -1
  wakeup : s.wakeup_fd_ < 0 → s.wakeup_fd_ = -1
  listening : s.listening_fd_ < 0 → s.listening_fd_ = -1

/-- The members that most calls leave alone. -/
def members (s : Server) : ℤ × ℤ × ℤ × ℕ :=
  (s.epoll_fd_, s.wakeup_fd_, s.listening_fd_, s.bound_port_)

lemma Tidy.of_members {s s' : Server} (h : s.Tidy) (heq : s'.members = s.members) : s'.Tidy := by
  simp only [members, Prod.mk.injEq] at heq
  obtain ⟨hepoll, hwakeup, hlistening, -⟩ := heq
  refine ⟨?_, ?_, ?_⟩
  · rw [hepoll]
    exact h.epoll
  · rw [hwakeup]
    exact h.wakeup
  · rw [hlistening]
    exact h.listening

lemma port_of_members {s s' : Server} (heq : s'.members = s.members) :
    s'.bound_port_ = s.bound_port_ := congrArg (fun m => m.2.2.2) heq

lemma members_both {f g : Server → Bool × Server} (hf : ∀ s, (f s).2.members = s.members)
    (hg : ∀ s, (g s).2.members = s.members) (s : Server) :
    (both f g s).2.members = s.members := by
  rw [both]
  split
  · exact (hg _).trans (hf s)
  · exact hf s

lemma members_setNonBlocking (fd : ℤ) (s : Server) :
    (s.setNonBlocking k fd).2.members = s.members :=
  members_both (fun _ => rfl) (fun _ => rfl) s

lemma members_setSocketTimeouts (fd : ℤ) (s : Server) :
    (s.setSocketTimeouts k fd).2.members = s.members :=
  members_both (fun _ => rfl) (fun _ => rfl) s

lemma members_registerFd (fd : ℤ) (client : Bool) (s : Server) :
    (s.registerFd k fd client).2.members = s.members := by
  refine members_both (members_setNonBlocking fd) (members_both (fun _ => rfl) ?_) s
  intro s
  cases client with
  | false => rfl
  | true =>
      have htimeouts := members_setSocketTimeouts (k := k) fd s
      simp only [if_true, keepClient]
      split <;> exact htimeouts

lemma members_unregisterFd (fd : ℤ) (s : Server) : (s.unregisterFd k fd).members = s.members := by
  rw [unregisterFd]
  split <;> rfl

lemma members_closeClients (n : ℕ) (s : Server) : (closeClients k n s).members = s.members := by
  induction n generalizing s with
  | zero => rfl
  | succ n ih =>
      rw [closeClients]
      split
      · rfl
      · rw [ih, members_unregisterFd]

lemma closeClients_client_fd_ {n : ℕ} {s : Server} (hn : s.client_fd_.length = n) :
    (closeClients k n s).client_fd_ = [] := by
  induction n generalizing s with
  | zero => exact List.length_eq_zero_iff.mp hn
  | succ n ih =>
      rw [closeClients]
      cases hlast : s.client_fd_.getLast? with
      | none => exact List.getLast?_eq_none_iff.mp hlast
      | some fd =>
          refine ih ?_
          rw [unregisterFd_client_fd_, List.length_erase_of_mem (List.mem_of_getLast? hlast), hn]
          rfl

/-! ## The clean-up -/

lemma closeListening_members (s : Server) : s.closeListening.members =
    (s.epoll_fd_, s.wakeup_fd_, if 0 ≤ s.listening_fd_ then -1 else s.listening_fd_,
      s.bound_port_) := by
  rw [closeListening]
  split <;> rfl

lemma closeWakeup_members (s : Server) : (s.closeWakeup k).members =
    (s.epoll_fd_, if 0 ≤ s.wakeup_fd_ then -1 else s.wakeup_fd_, s.listening_fd_,
      s.bound_port_) := by
  by_cases hepoll : 0 ≤ s.epoll_fd_
  · rw [closeWakeup, if_pos hepoll]
    split <;> rfl
  · rw [closeWakeup, if_neg hepoll]
    split <;> rfl

lemma closeEpoll_members (s : Server) : s.closeEpoll.members =
    (if 0 ≤ s.epoll_fd_ then -1 else s.epoll_fd_, s.wakeup_fd_, s.listening_fd_,
      s.bound_port_) := by
  rw [closeEpoll]
  split <;> rfl

/-- **`closeStartupDescriptors` undoes every member but the port.** -/
lemma closeStartupDescriptors_members {s : Server} (h : s.Tidy) :
    (s.closeStartupDescriptors k).members = (-1, -1, -1, s.bound_port_) ∧
      (s.closeStartupDescriptors k).client_fd_ = [] := by
  have hclosed : ∀ fd : ℤ, (fd < 0 → fd = -1) → (if 0 ≤ fd then -1 else fd) = -1 := by
    intro fd hfd
    split
    · rfl
    · exact hfd (by omega)
  have hclients : (s.closeClientFds k).members = s.members := members_closeClients _ s
  have h₁ := closeListening_members (s.closeClientFds k)
  have h₂ := closeWakeup_members (k := k) (s.closeClientFds k).closeListening
  have h₃ := closeEpoll_members ((s.closeClientFds k).closeListening.closeWakeup k)
  rw [closeStartupDescriptors]
  constructor
  · simp only [members, Prod.mk.injEq] at hclients h₁ h₂ h₃ ⊢
    obtain ⟨hepoll, hwakeup, hlistening, hport⟩ := hclients
    obtain ⟨hepoll₁, hwakeup₁, hlistening₁, hport₁⟩ := h₁
    obtain ⟨hepoll₂, hwakeup₂, hlistening₂, hport₂⟩ := h₂
    obtain ⟨hepoll₃, hwakeup₃, hlistening₃, hport₃⟩ := h₃
    refine ⟨?_, ?_, ?_, ?_⟩
    · rw [hepoll₃, hepoll₂, hepoll₁, hepoll, hclosed _ h.epoll]
    · rw [hwakeup₃, hwakeup₂, hwakeup₁, hwakeup, hclosed _ h.wakeup]
    · rw [hlistening₃, hlistening₂, hlistening₁, hlistening, hclosed _ h.listening]
    · rw [hport₃, hport₂, hport₁, hport]
  · rw [(closeEpoll_frame _).1, (closeWakeup_frame _).1, (closeListening_frame _).1]
    exact closeClients_client_fd_ rfl

/-- What is left when `start` gives up. -/
lemma giveUp_stopped {s : Server} (h : s.Tidy) : (s.giveUp k).2.bound_port_ = s.bound_port_ ∧
    ((s.giveUp k).2.Stopped ↔ s.bound_port_ = 0) := by
  obtain ⟨hmembers, hclients⟩ := closeStartupDescriptors_members (k := k) h
  simp only [members, Prod.mk.injEq] at hmembers
  obtain ⟨hepoll, hwakeup, hlistening, hport⟩ := hmembers
  refine ⟨hport, fun hstopped => hport.symm.trans hstopped.port, fun hzero => ?_⟩
  exact ⟨rfl, hepoll, hwakeup, hlistening, hclients, hport.trans hzero⟩

lemma giveUp_tidy {s : Server} (h : s.Tidy) : (s.giveUp k).2.Tidy := by
  have hmembers := (closeStartupDescriptors_members (k := k) h).1
  simp only [members, Prod.mk.injEq] at hmembers
  obtain ⟨hepoll, hwakeup, hlistening, -⟩ := hmembers
  exact ⟨fun _ => hepoll, fun _ => hwakeup, fun _ => hlistening⟩

/-! ## Two halves of `start` -/

variable (k) in
/-- `start` up to the port that `getsockname` reports. -/
def bindPort : Server → Bool × Server :=
  both (openEpoll k) (both (openWakeup k) (both (openListening k) (both (setOptions k)
    (both (bindAndListen k) (readPort k)))))

variable (k) in
/-- The port that `start` gets; none when a call fails before. -/
def portRead (s : Server) : Option ℕ :=
  let r := bindPort k { s with state_ := .kStarting }
  if r.1 then some r.2.bound_port_ else none

lemma attempt_attempt (f g h : Server → Bool × Server) :
    attempt k f (attempt k g h) = attempt k (both f g) h := by
  funext s
  by_cases hf : (f s).1 = true
  · rw [attempt, if_pos hf, attempt, attempt, both, if_pos hf]
  · rw [attempt, if_neg hf, attempt, both, if_neg hf, if_neg Bool.false_ne_true]

/-- **The two halves of `start`.** -/
lemma start_eq {s : Server} (h : s.state_ = .kStopped) : s.start k =
    attempt k (bindPort k) (attempt k (registerBoth k) (launch k))
      { s with state_ := .kStarting } := by
  have hstate : ¬ s.state_ ≠ .kStopped := not_not.mpr h
  rw [start, if_neg hstate]
  simp only [bindPort, ← attempt_attempt]

/-- `f` keeps the members tidy, and the port. -/
def TidyPart (f : Server → Bool × Server) : Prop :=
  ∀ s, s.Tidy → (f s).2.Tidy ∧ (f s).2.bound_port_ = s.bound_port_

lemma tidyPart_of_members {f : Server → Bool × Server}
    (hf : ∀ s, (f s).2.members = s.members) : TidyPart f :=
  fun s hs => ⟨hs.of_members (hf s), port_of_members (hf s)⟩

lemma TidyPart.both {f g : Server → Bool × Server} (hf : TidyPart f) (hg : TidyPart g) :
    TidyPart (both f g) := by
  intro s hs
  obtain ⟨htidy, hport⟩ := hf s hs
  rw [Server.both]
  split
  · obtain ⟨htidy', hport'⟩ := hg _ htidy
    exact ⟨htidy', hport'.trans hport⟩
  · exact ⟨htidy, hport⟩

/-- A failing call for a descriptor returns `-1`. -/
def MinusOne (k : Surroundings) : Prop :=
  ∀ opened n, k.descriptor opened n < 0 → k.descriptor opened n = -1

lemma obtain_fst (w : Descriptors) : (w.obtain_ k).1 = k.descriptor w.opened w.calls := by
  rw [Descriptors.obtain_]
  split <;> rfl

lemma tidyPart_openEpoll (hk : MinusOne k) : TidyPart (openEpoll k) := by
  intro s hs
  refine ⟨⟨fun hneg => ?_, hs.wakeup, hs.listening⟩, rfl⟩
  change (s.world.obtain_ k).1 < 0 at hneg
  change (s.world.obtain_ k).1 = -1
  rw [obtain_fst] at hneg ⊢
  exact hk _ _ hneg

/-- `setNonBlocking` behind a call that obtains a descriptor. -/
lemma Tidy.nonBlocking {s : Server} (hs : s.Tidy) (fd : ℤ) :
    (if fd < 0 then (false, s) else s.setNonBlocking k fd).2.Tidy ∧
      (if fd < 0 then (false, s) else s.setNonBlocking k fd).2.bound_port_ = s.bound_port_ := by
  split
  · exact ⟨hs, rfl⟩
  · exact ⟨hs.of_members (members_setNonBlocking fd s),
      port_of_members (members_setNonBlocking fd s)⟩

lemma tidyPart_openWakeup (hk : MinusOne k) : TidyPart (openWakeup k) := by
  intro s hs
  let t : Server := { s with
    wakeup_fd_ := (s.world.obtain_ k).1
    world := (s.world.obtain_ k).2 }
  have ht : t.Tidy := by
    refine ⟨hs.epoll, fun hneg => ?_, hs.listening⟩
    change (s.world.obtain_ k).1 < 0 at hneg
    change (s.world.obtain_ k).1 = -1
    rw [obtain_fst] at hneg ⊢
    exact hk _ _ hneg
  exact ht.nonBlocking _

lemma tidyPart_openListening (hk : MinusOne k) : TidyPart (openListening k) := by
  intro s hs
  let t : Server := { s with
    listening_fd_ := (s.world.obtain_ k).1
    world := (s.world.obtain_ k).2 }
  have ht : t.Tidy := by
    refine ⟨hs.epoll, hs.wakeup, fun hneg => ?_⟩
    change (s.world.obtain_ k).1 < 0 at hneg
    change (s.world.obtain_ k).1 = -1
    rw [obtain_fst] at hneg ⊢
    exact hk _ _ hneg
  exact ht.nonBlocking _

lemma tidyPart_setOptions : TidyPart (setOptions k) :=
  tidyPart_of_members fun s =>
    members_both (fun _ => rfl) (members_setSocketTimeouts s.listening_fd_) s

lemma tidyPart_bindAndListen : TidyPart (bindAndListen k) :=
  tidyPart_of_members fun s => members_both (fun _ => rfl) (fun _ => rfl) s

/-- **The first half of `start`**: until it gets a port it keeps the one that was there. -/
lemma bindPort_tidy (hk : MinusOne k) {s : Server} (h : s.Tidy) : (s.bindPort k).2.Tidy ∧
    ((s.bindPort k).1 = false → (s.bindPort k).2.bound_port_ = s.bound_port_) := by
  have hlast : ∀ s : Server, s.Tidy → (s.readPort k).2.Tidy ∧
      ((s.readPort k).1 = false → (s.readPort k).2.bound_port_ = s.bound_port_) := by
    intro s hs
    simp only [readPort]
    split
    · exact ⟨⟨hs.epoll, hs.wakeup, hs.listening⟩, fun hfail =>
        absurd hfail.symm Bool.false_ne_true⟩
    · exact ⟨⟨hs.epoll, hs.wakeup, hs.listening⟩, fun _ => rfl⟩
  have hboth : ∀ {f g : Server → Bool × Server}, TidyPart f →
      (∀ s : Server, s.Tidy → (g s).2.Tidy ∧
        ((g s).1 = false → (g s).2.bound_port_ = s.bound_port_)) →
      ∀ s : Server, s.Tidy → (both f g s).2.Tidy ∧
        ((both f g s).1 = false → (both f g s).2.bound_port_ = s.bound_port_) := by
    intro f g hf hg s hs
    obtain ⟨htidy, hport⟩ := hf s hs
    rw [both]
    split
    · obtain ⟨htidy', hport'⟩ := hg _ htidy
      exact ⟨htidy', fun hfail => (hport' hfail).trans hport⟩
    · exact ⟨htidy, fun _ => hport⟩
  exact hboth (tidyPart_openEpoll hk) (hboth (tidyPart_openWakeup hk)
    (hboth (tidyPart_openListening hk) (hboth tidyPart_setOptions
      (hboth tidyPart_bindAndListen hlast)))) s h

/-- **The second half of `start`** keeps the port also when it fails. -/
lemma publish_tidy {s : Server} (h : s.Tidy) :
    (attempt k (registerBoth k) (launch k) s).2.Tidy ∧
      ((attempt k (registerBoth k) (launch k) s).1 = false →
        ((attempt k (registerBoth k) (launch k) s).2.Stopped ↔ s.bound_port_ = 0) ∧
        (attempt k (registerBoth k) (launch k) s).2.bound_port_ = s.bound_port_) := by
  have hmembers : (s.registerBoth k).2.members = s.members :=
    members_both (members_registerFd _ false) (members_registerFd _ false) s
  have hgives : ∀ t : Server, t.members = s.members → (t.giveUp k).2.Tidy ∧
      (((t.giveUp k).2.Stopped ↔ s.bound_port_ = 0) ∧
        (t.giveUp k).2.bound_port_ = s.bound_port_) := by
    intro t ht
    obtain ⟨hport, hiff⟩ := giveUp_stopped (k := k) (h.of_members ht)
    rw [port_of_members ht] at hport hiff
    exact ⟨giveUp_tidy (h.of_members ht), hiff, hport⟩
  rw [attempt]
  split
  · simp only [launch]
    split
    · exact ⟨(h.of_members hmembers).of_members rfl, fun hfail =>
        absurd hfail.symm Bool.false_ne_true⟩
    · obtain ⟨htidy, hrest⟩ :=
        hgives (call k .thread { (s.registerBoth k).2 with state_ := .kRunning }).2 hmembers
      exact ⟨htidy, fun _ => hrest⟩
  · obtain ⟨htidy, hrest⟩ := hgives _ hmembers
    exact ⟨htidy, fun _ => hrest⟩

lemma start_tidy (hk : MinusOne k) {s : Server} (h : s.Tidy) : (s.start k).2.Tidy := by
  by_cases hstate : s.state_ = .kStopped
  · have hs : ({ s with state_ := .kStarting } : Server).Tidy := h.of_members rfl
    obtain ⟨htidy, -⟩ := bindPort_tidy hk hs
    rw [start_eq hstate, attempt]
    split
    · exact (publish_tidy htidy).1
    · exact giveUp_tidy htidy
  · rw [start, if_pos hstate]
    exact h

/-- **A failed `start`**: the port it got, or else the one that was there, decides. -/
lemma failed_start {s : Server} (hk : MinusOne k) (h : s.Tidy) (hstate : s.state_ = .kStopped)
    (hfailed : (s.start k).1 = false) :
    ((s.start k).2.Stopped ↔ (s.portRead k).getD s.bound_port_ = 0) ∧
      (s.start k).2.bound_port_ = (s.portRead k).getD s.bound_port_ := by
  have hs : ({ s with state_ := .kStarting } : Server).Tidy := h.of_members rfl
  obtain ⟨htidy, hport⟩ := bindPort_tidy hk hs
  rw [start_eq hstate, attempt] at hfailed ⊢
  rw [portRead]
  cases hok : (bindPort k { s with state_ := .kStarting }).1 with
  | true =>
      rw [hok, if_pos rfl] at hfailed
      rw [if_pos rfl, if_pos rfl, Option.getD_some]
      exact (publish_tidy htidy).2 hfailed
  | false =>
      rw [if_neg Bool.false_ne_true, if_neg Bool.false_ne_true, Option.getD_none]
      obtain ⟨hkept, hiff⟩ := giveUp_stopped (k := k) htidy
      rw [hport hok] at hkept hiff
      exact ⟨hiff, hkept⟩

/-! ## Runs -/

lemma Tidy.closeListening {s : Server} (h : s.Tidy) : s.closeListening.Tidy := by
  rw [Server.closeListening]
  split
  · exact ⟨h.epoll, h.wakeup, fun _ => rfl⟩
  · exact h

/-- A step of the thread keeps the port, and the thread is still there. -/
lemma runStep_tidy {s s' : Server} (h : s.Tidy) (hstep : s.runStep k = some s') :
    s'.Tidy ∧ s'.bound_port_ = s.bound_port_ ∧ s'.thread_ ≠ none := by
  have hkeeps : ∀ t : Server, t.members = s.members → t.thread_ ≠ none →
      t.Tidy ∧ t.bound_port_ = s.bound_port_ ∧ t.thread_ ≠ none :=
    fun t ht hthread => ⟨h.of_members ht, port_of_members ht, hthread⟩
  rw [runStep] at hstep
  split at hstep
  case h_1 => cases hstep
  case h_2 hthread =>
    split at hstep
    · cases hstep
      exact hkeeps _ rfl (by simp [tick, hthread])
    · cases hstep
      exact hkeeps _ rfl (Option.some_ne_none _)
    · cases hstep
      exact hkeeps _ rfl (Option.some_ne_none _)
  case h_3 =>
    cases hstep
    exact hkeeps _ rfl (Option.some_ne_none _)
  case h_4 e rest hthread =>
    cases hstep
    rw [handle]
    split
    · exact hkeeps _ rfl (Option.some_ne_none _)
    split
    · exact hkeeps _ rfl (Option.some_ne_none _)
    split
    · simp only
      split
      · exact hkeeps _ rfl (Option.some_ne_none _)
      · exact hkeeps _ rfl (Option.some_ne_none _)
    split
    · split
      · exact hkeeps _ rfl (Option.some_ne_none _)
      · exact hkeeps _ (members_unregisterFd e.fd s.tick) (Option.some_ne_none _)
      · exact hkeeps _ rfl (Option.some_ne_none _)
    · exact hkeeps _ (members_unregisterFd e.fd s) (Option.some_ne_none _)
  case h_5 client rest hthread =>
    cases hstep
    have hregister := members_registerFd (k := k) client true s
    rw [admitClient]
    split
    · exact hkeeps _ rfl (Option.some_ne_none _)
    · simp only
      split
      · exact hkeeps _ hregister (Option.some_ne_none _)
      · exact hkeeps _ hregister (Option.some_ne_none _)
  case h_6 =>
    cases hstep
    have hclosed : (s.closeClientFds k).members = s.members := members_closeClients _ s
    have hport := congrArg (fun m => m.2.2.2) (closeListening_members (s.closeClientFds k))
    refine ⟨(h.of_members hclosed).closeListening.of_members rfl, ?_, Option.some_ne_none _⟩
    exact hport.trans (port_of_members hclosed)
  case h_7 => cases hstep

lemma start_thread {s : Server} (hstate : s.state_ = .kStopped) (hok : (s.start k).1 = true) :
    (s.start k).2.thread_ ≠ none := by
  rw [start_eq hstate, attempt] at hok ⊢
  split at hok
  case isTrue hbind =>
    rw [if_pos hbind]
    rw [attempt] at hok ⊢
    split at hok
    case isTrue hregister =>
      rw [if_pos hregister]
      simp only [launch] at hok ⊢
      split at hok
      case isTrue hthread =>
        rw [if_pos hthread]
        exact Option.some_ne_none _
      case isFalse => exact absurd hok Bool.false_ne_true
    case isFalse => exact absurd hok Bool.false_ne_true
  case isFalse => exact absurd hok Bool.false_ne_true

lemma stopEnd_tidy {s : Server} (h : s.Tidy) : (s.stopEnd k).Tidy := by
  have hs : ({ s with thread_ := none } : Server).Tidy := h.of_members rfl
  have hmembers := (closeStartupDescriptors_members (k := k) hs).1
  simp only [members, Prod.mk.injEq] at hmembers
  obtain ⟨hepoll, hwakeup, hlistening, -⟩ := hmembers
  exact ⟨fun _ => hepoll, fun _ => hwakeup, fun _ => hlistening⟩

lemma stopBegin_members (s : Server) :
    s.stopBegin.members = s.members ∧ s.stopBegin.thread_ = s.thread_ := by
  rw [stopBegin]
  split
  · exact ⟨rfl, rfl⟩
  split <;> exact ⟨rfl, rfl⟩

/-- **Every step leaves the members tidy.** -/
lemma step_tidy (hk : MinusOne k) (s : Server) (a : Action) (s' : Server) (h : s.Tidy)
    (hstep : s.step k a = some s') : s'.Tidy := by
  cases a with
  | start =>
      rw [step, Option.ite_none_left_eq_some] at hstep
      obtain ⟨-, heq⟩ := hstep
      cases heq
      exact start_tidy hk h
  | stop =>
      rw [step, Option.ite_none_left_eq_some] at hstep
      obtain ⟨-, heq⟩ := hstep
      cases heq
      exact h.of_members (stopBegin_members s).1
  | join =>
      rw [step, Option.ite_none_right_eq_some] at hstep
      obtain ⟨-, heq⟩ := hstep
      cases heq
      exact stopEnd_tidy h
  | run => exact (runStep_tidy h hstep).1

/-- A start that fails has got no port, or the port `0`. -/
def NoPortLeft (k : Surroundings) (s : Server) (a : Action) : Prop :=
  a = .start → s.state_ = .kStopped → (s.start k).1 = false → (s.portRead k).getD 0 = 0

/-- A server without a thread has no port. -/
structure Portless (s : Server) : Prop where
  tidy : s.Tidy
  lifecycle : s.Lifecycle
  port : s.thread_ = none → s.bound_port_ = 0

lemma Lifecycle.thread_none {s : Server} (h : s.Lifecycle) (hstate : s.state_ = .kStopped) :
    s.thread_ = none := by
  by_contra hsome
  have := h.started hsome
  rw [hstate] at this
  simp at this

/-- **A step that leaves no port behind keeps a server without a thread free of one.** -/
lemma step_portless (hk : MinusOne k) (s : Server) (a : Action) (s' : Server) (h : s.Portless)
    (hno : NoPortLeft k s a) (hstep : s.step k a = some s') : s'.Portless := by
  refine ⟨step_tidy hk s a s' h.tidy hstep, step_lifecycle s a s' h.lifecycle hstep,
    fun hthread => ?_⟩
  cases a with
  | start =>
      rw [step, Option.ite_none_left_eq_some] at hstep
      obtain ⟨-, heq⟩ := hstep
      cases heq
      by_cases hstate : s.state_ = .kStopped
      · cases hok : (s.start k).1 with
        | true => exact absurd hthread (start_thread hstate hok)
        | false =>
            rw [(failed_start hk h.tidy hstate hok).2, h.port (h.lifecycle.thread_none hstate)]
            exact hno rfl hstate hok
      · rw [start, if_pos hstate] at hthread ⊢
        exact h.port hthread
  | stop =>
      rw [step, Option.ite_none_left_eq_some] at hstep
      obtain ⟨-, heq⟩ := hstep
      cases heq
      obtain ⟨hmembers, hsame⟩ := stopBegin_members s
      rw [port_of_members hmembers]
      exact h.port (hsame ▸ hthread)
  | join =>
      rw [step, Option.ite_none_right_eq_some] at hstep
      obtain ⟨-, heq⟩ := hstep
      cases heq
      rfl
  | run => exact absurd hthread (runStep_tidy h.tidy hstep).2.2

/-- **When a failed `start` is a no-op.**  A server that was stopped is left as a stopped server
exactly when the port it got, or the one left behind by an earlier `start` when it got none, is `0`.
In a run whose failing starts get no port, that is when this one gets none. -/
theorem failed_start_iff (hk : MinusOne k) {actions : List Action} {s : Server}
    (hrun : Machine.run (step k) {} actions = some s) (hstate : s.state_ = .kStopped)
    (hfailed : (s.start k).1 = false) :
    ((s.start k).2.Stopped ↔ (s.portRead k).getD s.bound_port_ = 0) ∧
      (Machine.Throughout (step k) (NoPortLeft k) {} actions →
        ((s.start k).2.Stopped ↔ (s.portRead k).getD 0 = 0)) := by
  have htidy : s.Tidy := Machine.run_invariant_of_step (step_tidy hk)
    ⟨fun _ => rfl, fun _ => rfl, fun _ => rfl⟩ hrun
  obtain ⟨hiff, -⟩ := failed_start hk htidy hstate hfailed
  refine ⟨hiff, fun hthroughout => ?_⟩
  have hportless : s.Portless := Machine.run_invariant (step_portless hk)
    ⟨⟨fun _ => rfl, fun _ => rfl, fun _ => rfl⟩, lifecycle_new, fun _ => rfl⟩
      hthroughout hrun
  rw [hiff, hportless.port (hportless.lifecycle.thread_none hstate)]

/-- A system in which some calls fail. -/
def failing (fails : SystemCall → Bool) : Surroundings :=
  { obliging with succeeds := fun c _ => !fails c }

/-- `getsockname` fails. -/
def noPort : SystemCall → Bool
  | .getsockname _ => true
  | _ => false

/-- The thread cannot be started. -/
def noThread : SystemCall → Bool
  | .thread => true
  | _ => false

lemma minusOne_failing (fails : SystemCall → Bool) : MinusOne (failing fails) := by
  have hpos : ∀ fds : List ℤ, 2 ≤ fds.foldr max 2 := by
    intro fds
    induction fds with
    | nil => exact le_rfl
    | cons fd fds ih => exact ih.trans (le_max_right _ _)
  intro opened n hneg
  change opened.foldr max 2 + 1 < 0 at hneg
  have := hpos opened
  omega

/-- `getsockname` fails. -/
theorem failed_start_no_port :
    (start (failing noPort) {}).1 = false ∧ (start (failing noPort) {}).2.Stopped := by
  have hfailed : (start (failing noPort) {}).1 = false := by decide +kernel
  have hrun : Machine.run (step (failing noPort)) {} [] = some {} := rfl
  refine ⟨hfailed,
    ((failed_start_iff (minusOne_failing noPort) hrun rfl hfailed).2 trivial).mpr ?_⟩
  decide +kernel

/-- The thread cannot be created: the server has been stopped, but it still has a port. -/
theorem failed_start_keeps_port :
    (start (failing noThread) {}).1 = false ∧
    (start (failing noThread) {}).2.bound_port_ = 9000 ∧
      ¬ (start (failing noThread) {}).2.Stopped := by
  have hport : (start (failing noThread) {}).2.bound_port_ = 9000 := by decide +kernel
  refine ⟨by decide +kernel, hport, fun hstopped => ?_⟩
  have := hstopped.port
  omega

end Server

end Tracebox
