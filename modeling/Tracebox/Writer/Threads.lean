import Tracebox.Lib.Protocol
import Tracebox.Writer.Wakeups

/-!
# The threads of `LogWriter`

The writer once more, cut at everything the threads share: the mutex is taken and given back, the
flag and the queue are read and written one after the other, `joinable` and `join` are two calls.
Any number of threads call `add` and `stop`; what the mutex promises is proved and not built in.

* `Threads.step` — one access of one thread.
* `excludes_of_run` — no two threads are in a section under the mutex.
* `threads_refine` — **every run shows a run of the writer whose sections are single steps**: a
  section takes place where it decides.
* `drains` — **after `stop` has set the flag the steps of the worker run out**, and when no thread
  can go on everything accepted is written, the worker has ended, and every call has returned.
-/

namespace Tracebox

open Bytes

/-- Where a call of `add` or `stop` is. -/
inductive Caller where
  /-- before `lock_guard` of `add` -/
  | adding (request : LogRequest)
  /-- before `if (stopping_)` -/
  | addChecks (request : LogRequest)
  /-- before `queue_.push` -/
  | addPushes (request : LogRequest)
  /-- at the end of the scope of `lock_guard`, with what `add` will return -/
  | addLeaves (result : Bool)
  /-- before `notify_one` of `add` -/
  | addNotifies
  | addReturned
  /-- before `lock_guard` of `stop` -/
  | stopping
  /-- before `stopping_ = true` -/
  | stopSets
  /-- at the end of the scope of `lock_guard` -/
  | stopLeaves
  /-- before `notify_one` of `stop` -/
  | stopNotifies
  /-- before `thread_.joinable()` -/
  | stopAsks
  /-- in `thread_.join()` -/
  | stopJoins
  | stopReturned
  deriving DecidableEq

/-- Where the worker is in `writingThread` and `wait`. -/
inductive WorkerPoint where
  /-- before `unique_lock` -/
  | locking
  /-- before the predicate of `condition_.wait` -/
  | checks
  /-- in `condition_.wait`, without the mutex -/
  | sleeping
  /-- woken in `condition_.wait`, before it has the mutex again -/
  | woken
  /-- past `condition_.wait`, before `queue_.empty()` -/
  | takes
  /-- with a copy of the first request, before `queue_.pop()` -/
  | pops (request : LogRequest)
  /-- before the end of `unique_lock`, with what `wait` will return -/
  | leaves (request : Option LogRequest)
  /-- in `Storage::write` -/
  | writing (request : LogRequest)
  /-- `writingThread` has returned -/
  | ended
  deriving DecidableEq

/-- A thread of the program: the worker, or one that calls `add` or `stop`. -/
inductive Thread where
  | worker
  | caller (i : ℕ)
  deriving DecidableEq

/-- The writer and the threads that use it. -/
structure Threads (σ : Type*) where
  queue_ : List LogRequest := []
  stopping_ : Bool := false
  storage_ : σ
  /-- who has the mutex -/
  mutex_ : Option Thread := none
  /-- `thread_.joinable()` -/
  joinable : Bool := true
  worker : WorkerPoint := .locking
  callers : List Caller := []
  /-- the decided calls of `add` with their results -/
  added : List (LogRequest × Bool) := []
  /-- the requests that `Storage::write` has written -/
  written : List LogRequest := []
  deriving DecidableEq

namespace Threads

/-- What happens: a call comes in, or a thread goes on by one access. -/
inductive Action where
  /-- `add` is called -/
  | add (request : LogRequest)
  /-- `stop` is called -/
  | stop
  /-- a call goes on -/
  | caller (i : ℕ)
  /-- the worker goes on -/
  | worker
  /-- `condition_.wait` wakes up without a notification -/
  | wake
  deriving DecidableEq

variable {σ : Type*} (write : σ → LogRequest → Option σ)

/-- The writer when its constructor has returned and the worker has not begun. -/
def start (storage : σ) : Threads σ := { storage_ := storage }

/-- A call has gone on. -/
@[simps]
def put (t : Threads σ) (i : ℕ) (c : Caller) : Threads σ :=
  { t with callers := t.callers.set i c }

/-- `condition_.notify_one()`: only the worker waits. -/
def notify (t : Threads σ) : Threads σ :=
  { t with worker := if t.worker = .sleeping then .woken else t.worker }

/-- A call goes on; none while it has to wait.  A `join` of a thread that another `join` has taken
does not return. -/
def call (t : Threads σ) (i : ℕ) : Caller → Option (Threads σ)
  | .adding request =>
      if t.mutex_ = none then some { t.put i (.addChecks request) with mutex_ := some (.caller i) }
      else none
  | .addChecks request =>
      if t.stopping_ then
        some { t.put i (.addLeaves false) with added := t.added ++ [(request, false)] }
      else some (t.put i (.addPushes request))
  | .addPushes request => some { t.put i (.addLeaves true) with
      queue_ := t.queue_ ++ [request], added := t.added ++ [(request, true)] }
  | .addLeaves result =>
      some { t.put i (if result then .addNotifies else .addReturned) with mutex_ := none }
  | .addNotifies => some (t.put i .addReturned).notify
  | .addReturned => none
  | .stopping =>
      if t.mutex_ = none then some { t.put i .stopSets with mutex_ := some (.caller i) } else none
  | .stopSets => some { t.put i .stopLeaves with stopping_ := true }
  | .stopLeaves => some { t.put i .stopNotifies with mutex_ := none }
  | .stopNotifies => some (t.put i .stopAsks).notify
  | .stopAsks => some (t.put i (if t.joinable then .stopJoins else .stopReturned))
  | .stopJoins =>
      if t.worker = .ended ∧ t.joinable then
        some { t.put i .stopReturned with joinable := false }
      else none
  | .stopReturned => none

/-- The worker goes on; none while it has to wait, and after an exception of `Storage::write`. -/
def work (t : Threads σ) : Option (Threads σ) :=
  match t.worker with
  | .locking | .woken =>
      if t.mutex_ = none then some { t with mutex_ := some .worker, worker := .checks } else none
  | .checks =>
      if t.stopping_ || ! t.queue_.isEmpty then some { t with worker := .takes }
      else some { t with mutex_ := none, worker := .sleeping }
  | .sleeping => none
  | .takes =>
      match t.queue_ with
      | [] => some { t with worker := .leaves none }
      | request :: _ => some { t with worker := .pops request }
  | .pops request => some { t with queue_ := t.queue_.tail, worker := .leaves (some request) }
  | .leaves none => some { t with mutex_ := none, worker := .ended }
  | .leaves (some request) => some { t with mutex_ := none, worker := .writing request }
  | .writing request => (write t.storage_ request).map fun storage =>
      { t with storage_ := storage, worker := .locking, written := t.written ++ [request] }
  | .ended => none

/-- One access of one thread. -/
def step (t : Threads σ) : Action → Option (Threads σ)
  | .add request => some { t with callers := t.callers ++ [.adding request] }
  | .stop => some { t with callers := t.callers ++ [.stopping] }
  | .caller i => t.callers[i]?.bind (t.call i)
  | .worker => t.work write
  | .wake => if t.worker = .sleeping then some { t with worker := .woken } else none

/-- The requests whose `add` returns `true`, in the order of their admission. -/
def accepted (t : Threads σ) : List LogRequest :=
  (t.added.filter fun call => call.2).map fun call => call.1

end Threads

/-! ## The mutex -/

/-- A call in a section under the mutex. -/
def Caller.inside : Caller → Bool
  | addChecks _ | addPushes _ | addLeaves _ | stopSets | stopLeaves => true
  | _ => false

/-- The worker is in a section under the mutex. -/
def WorkerPoint.inside : WorkerPoint → Bool
  | checks | takes | pops _ | leaves _ => true
  | _ => false

namespace Threads

variable {σ : Type*} {write : σ → LogRequest → Option σ} {t t' : Threads σ} {i j : ℕ}
  {c c' : Caller}
  {a : Action} {storage : σ} {actions : List Action}

/-- A thread in a section under the mutex. -/
def inside (t : Threads σ) : Thread → Bool
  | .worker => t.worker.inside
  | .caller i => t.callers[i]?.any Caller.inside

lemma inside_caller (hi : t.callers[i]? = some c) : t.inside (.caller i) = c.inside := by
  simp only [inside, hi, Option.any_some]

/-- The section of the caller that has gone on. -/
lemma inside_put (hi : t.callers[i]? = some c) (c' : Caller) :
    (t.put i c').inside (.caller i) = c'.inside := by
  obtain ⟨hlt, -⟩ := List.getElem?_eq_some_iff.mp hi
  simp [inside, put, hlt]

/-- The sections of the other threads. -/
lemma inside_put_ne (t : Threads σ) (c' : Caller) {u : Thread} (hu : u ≠ .caller i) :
    (t.put i c').inside u = t.inside u := by
  cases u with
  | worker => rfl
  | caller j =>
      have hj : i ≠ j := fun heq => hu (heq ▸ rfl)
      simp [inside, put, List.getElem?_set_ne hj]

lemma inside_notify (t : Threads σ) (u : Thread) : t.notify.inside u = t.inside u := by
  cases u with
  | worker =>
      simp only [inside, notify]
      split_ifs with hsleeping
      · rw [hsleeping]
        rfl
      · rfl
  | caller j => rfl

/-- At most one thread is in a section under the mutex, and it has the mutex. -/
def Excludes (t : Threads σ) : Prop := Mutex.Exclusive t.mutex_ t.inside

lemma Excludes.notify (h : t.Excludes) : t.notify.Excludes :=
  Mutex.Exclusive.keep h (inside_notify t)

lemma excludes_start (storage : σ) : (start storage).Excludes := by
  intro u
  cases u <;> simp [start, inside, WorkerPoint.inside]

/-- A call that neither takes the mutex nor gives it back. -/
lemma Excludes.put (h : t.Excludes) (hi : t.callers[i]? = some c) (hsame : c'.inside = c.inside) :
    Mutex.Exclusive t.mutex_ (t.put i c').inside := by
  refine Mutex.Exclusive.keep h fun u => ?_
  by_cases hu : u = .caller i
  · rw [hu, inside_put hi, inside_caller hi, hsame]
  · exact t.inside_put_ne c' hu

lemma Excludes.lock (h : t.Excludes) (hfree : t.mutex_ = none) (hi : t.callers[i]? = some c)
    (hin : c'.inside = true) : Mutex.Exclusive (some (.caller i)) (t.put i c').inside := by
  rw [Excludes, hfree] at h
  exact h.lock (by rw [inside_put hi, hin]) fun u hu => t.inside_put_ne c' hu

lemma Excludes.unlock (h : t.Excludes) (hi : t.callers[i]? = some c) (hin : c.inside = true)
    (hout : c'.inside = false) : Mutex.Exclusive none (t.put i c').inside :=
  Mutex.Exclusive.unlock h (t := .caller i) (by rw [inside_caller hi, hin])
    (by rw [inside_put hi, hout]) fun u hu => t.inside_put_ne c' hu

/-- A step of the worker leaves the sections of the callers. -/
lemma inside_of_callers (hcallers : t'.callers = t.callers) {u : Thread} (hu : u ≠ .worker) :
    t'.inside u = t.inside u := by
  cases u with
  | worker => exact absurd rfl hu
  | caller j => simp only [inside, hcallers]

/-- A step of the worker that neither takes the mutex nor gives it back. -/
lemma Excludes.keeps (h : t.Excludes) (hmutex : t'.mutex_ = t.mutex_)
    (hcallers : t'.callers = t.callers) (hsame : t'.worker.inside = t.worker.inside) :
    t'.Excludes := by
  rw [Excludes, hmutex]
  refine Mutex.Exclusive.keep h fun u => ?_
  by_cases hu : u = .worker
  · rw [hu]
    exact hsame
  · exact inside_of_callers hcallers hu

lemma Excludes.locks (h : t.Excludes) (hfree : t.mutex_ = none)
    (hmutex : t'.mutex_ = some .worker) (hcallers : t'.callers = t.callers)
    (hin : t'.worker.inside = true) : t'.Excludes := by
  rw [Excludes, hfree] at h
  rw [Excludes, hmutex]
  exact h.lock hin fun u hu => inside_of_callers hcallers hu

lemma Excludes.unlocks (h : t.Excludes) (hin : t.worker.inside = true) (hmutex : t'.mutex_ = none)
    (hcallers : t'.callers = t.callers) (hout : t'.worker.inside = false) : t'.Excludes := by
  rw [Excludes, hmutex]
  exact Mutex.Exclusive.unlock h (t := .worker) hin hout fun u hu => inside_of_callers hcallers hu

/-- A call comes in. -/
lemma Excludes.enter (h : t.Excludes) (hout : c.inside = false) :
    ({ t with callers := t.callers ++ [c] } : Threads σ).Excludes := by
  refine Mutex.Exclusive.keep h fun u => ?_
  cases u with
  | worker => rfl
  | caller j =>
      simp only [inside]
      by_cases hj : j < t.callers.length
      · rw [List.getElem?_append_left hj]
      · rw [List.getElem?_append_right (not_lt.mp hj), List.getElem?_eq_none (not_lt.mp hj)]
        cases hget : [c][j - t.callers.length]? with
        | none => rfl
        | some d =>
            obtain rfl := List.mem_singleton.mp (List.mem_of_getElem? hget)
            exact hout

/-- **One access of one thread.** -/
lemma Excludes.step (h : t.Excludes) (hstep : t.step write a = some t') : t'.Excludes := by
  cases a with
  | add request =>
      cases hstep
      exact h.enter rfl
  | stop =>
      cases hstep
      exact h.enter rfl
  | wake =>
      simp only [Threads.step] at hstep
      split_ifs at hstep with hsleeping
      cases hstep
      exact h.keeps rfl rfl (by rw [hsleeping]; rfl)
  | caller i =>
      obtain ⟨c, hi, hcall⟩ := Option.bind_eq_some_iff.mp hstep
      cases c with
      | adding request =>
          simp only [call] at hcall
          split_ifs at hcall with hfree
          cases hcall
          exact h.lock hfree hi rfl
      | addChecks request =>
          simp only [call] at hcall
          split_ifs at hcall
          · cases hcall
            exact h.put hi rfl
          · cases hcall
            exact h.put hi rfl
      | addPushes request =>
          cases hcall
          exact h.put hi rfl
      | addLeaves result =>
          cases hcall
          exact h.unlock hi rfl (by cases result <;> rfl)
      | addNotifies =>
          cases hcall
          exact Excludes.notify (h.put hi rfl)
      | addReturned => cases hcall
      | stopping =>
          simp only [call] at hcall
          split_ifs at hcall with hfree
          cases hcall
          exact h.lock hfree hi rfl
      | stopSets =>
          cases hcall
          exact h.put hi rfl
      | stopLeaves =>
          cases hcall
          exact h.unlock hi rfl rfl
      | stopNotifies =>
          cases hcall
          exact Excludes.notify (h.put hi rfl)
      | stopAsks =>
          cases hcall
          exact h.put hi (by split_ifs <;> rfl)
      | stopJoins =>
          simp only [call] at hcall
          split_ifs at hcall
          cases hcall
          exact h.put hi rfl
      | stopReturned => cases hcall
  | worker =>
      simp only [Threads.step, work] at hstep
      cases hworker : t.worker with
      | locking | woken =>
          simp only [hworker] at hstep
          split_ifs at hstep with hfree
          cases hstep
          exact h.locks hfree rfl rfl rfl
      | checks =>
          simp only [hworker] at hstep
          split_ifs at hstep
          · cases hstep
            exact h.keeps rfl rfl (by rw [hworker]; rfl)
          · cases hstep
            exact h.unlocks (by rw [hworker]; rfl) rfl rfl rfl
      | sleeping => simp only [hworker] at hstep; cases hstep
      | takes =>
          simp only [hworker] at hstep
          split at hstep
          · cases hstep
            exact h.keeps rfl rfl (by rw [hworker]; rfl)
          · cases hstep
            exact h.keeps rfl rfl (by rw [hworker]; rfl)
      | pops request =>
          simp only [hworker] at hstep
          cases hstep
          exact h.keeps rfl rfl (by rw [hworker]; rfl)
      | leaves request =>
          cases request with
          | none =>
              simp only [hworker] at hstep
              cases hstep
              exact h.unlocks (by rw [hworker]; rfl) rfl rfl rfl
          | some request =>
              simp only [hworker] at hstep
              cases hstep
              exact h.unlocks (by rw [hworker]; rfl) rfl rfl rfl
      | writing request =>
          simp only [hworker] at hstep
          obtain ⟨storage, -, rfl⟩ := Option.map_eq_some_iff.mp hstep
          exact h.keeps rfl rfl (by rw [hworker]; rfl)
      | ended => simp only [hworker] at hstep; cases hstep

/-- **No two threads are in a section under the mutex**, in any interleaving. -/
lemma excludes_of_run (hrun : Machine.run (step write) (start storage) actions = some t) :
    t.Excludes :=
  Machine.run_invariant_of_step (fun _ _ _ h hstep => h.step hstep) (excludes_start storage) hrun

end Threads

/-! ## The level above -/

/-- A call of `add` that has accepted a request and has not notified. -/
def Caller.toNotifyAdd : Caller → Bool
  | addLeaves result => result
  | addNotifies => true
  | _ => false

/-- A call of `stop` that has set the flag and has not notified. -/
def Caller.toNotifyStop : Caller → Bool
  | stopLeaves | stopNotifies => true
  | _ => false

/-- A call of `stop` that has set the flag and has not returned. -/
def Caller.published : Caller → Bool
  | stopLeaves | stopNotifies | stopAsks | stopJoins => true
  | _ => false

/-- A call of `stop` that has returned. -/
def Caller.hasStopped : Caller → Bool
  | stopReturned => true
  | _ => false

/-- The worker as the writer without threads knows it. -/
def WorkerPoint.shown : WorkerPoint → Worker
  | locking | checks | sleeping | woken | takes | pops _ => .waiting
  | leaves none | ended => .exited
  | leaves (some request) | writing request => .writing request

namespace Threads

variable {σ : Type*} {write : σ → LogRequest → Option σ} {t t' : Threads σ} {i j : ℕ}
  {c c' : Caller}
  {a : Action} {storage : σ} {actions : List Action}

/-- What the threads show of the writer whose sections are single steps. -/
def view (t : Threads σ) : Monitored σ where
  system := {
    writer := {
      queue_ := t.queue_
      stopping_ := t.stopping_
      storage_ := t.storage_
      thread_ := t.worker.shown
      joinable := t.joinable }
    added := t.added
    written := t.written
    stops := t.callers.countP Caller.published
    stopped := decide (0 < t.callers.countP Caller.hasStopped) }
  asleep := decide (t.worker = .sleeping)
  adding := t.callers.countP Caller.toNotifyAdd
  stopping := t.callers.countP Caller.toNotifyStop

/-- The access with which a section of a call takes place. -/
def shownCall (t : Threads σ) : Caller → Option Monitored.Action
  | .addChecks request => if t.stopping_ then some (.add request) else none
  | .addPushes request => some (.add request)
  | .addNotifies => some .notifyAdd
  | .stopSets => some .stop
  | .stopNotifies => some .notifyStop
  | .stopAsks => if t.joinable then none else some .join
  | .stopJoins => some .join
  | _ => none

/-- The access with which a section of the worker takes place. -/
def shownWork (t : Threads σ) : Option Monitored.Action :=
  match t.worker with
  | .checks => if t.stopping_ || ! t.queue_.isEmpty then none else some .check
  | .takes => if t.queue_.isEmpty then some .check else none
  | .pops _ => some .check
  | .writing _ => some .write
  | _ => none

/-- What an access is to the level above. -/
def shown (t : Threads σ) (a : Action) (_ : Threads σ) : List Monitored.Action :=
  match a with
  | .add _ | .stop => []
  | .wake => [.wake]
  | .worker => t.shownWork.toList
  | .caller i => (t.callers[i]?.bind t.shownCall).toList

/-- What holds of the data while a thread is in its section. -/
structure Consistent (t : Threads σ) : Prop where
  excludes : t.Excludes
  pushes : ∀ request, Caller.addPushes request ∈ t.callers → t.stopping_ = false
  takes : t.worker = .takes → t.stopping_ = true ∨ t.queue_ ≠ []
  pops : ∀ request, t.worker = .pops request → ∃ rest, t.queue_ = request :: rest

lemma consistent_start (storage : σ) : (start storage).Consistent :=
  ⟨excludes_start storage, by simp [start], by simp [start], by simp [start]⟩

/-- A call that goes on and leaves the data alone. -/
lemma Consistent.goes (h : t.Consistent) (hexcludes : t'.Excludes)
    (hcallers : t'.callers = t.callers.set i c')
    (hc' : ∀ request, Caller.addPushes request = c' → t.stopping_ = false)
    (hstopping : t'.stopping_ = t.stopping_) (hqueue : t'.queue_ = t.queue_)
    (hworker : t'.worker = t.worker ∨ t'.worker = .woken) : t'.Consistent where
  excludes := hexcludes
  pushes request hmem := by
    rw [hcallers] at hmem
    rw [hstopping]
    rcases List.mem_or_eq_of_mem_set hmem with hmem | heq
    · exact h.pushes request hmem
    · exact hc' request heq
  takes htakes := by
    rw [hstopping, hqueue]
    rcases hworker with hsame | hwoken
    · exact h.takes (hsame ▸ htakes)
    · rw [hwoken] at htakes
      cases htakes
  pops request hpops := by
    rw [hqueue]
    rcases hworker with hsame | hwoken
    · exact h.pops request (hsame ▸ hpops)
    · rw [hwoken] at hpops
      cases hpops

lemma notify_worker (t : Threads σ) : t.notify.worker = t.worker ∨ t.notify.worker = .woken := by
  simp only [notify]
  split_ifs
  · exact .inr rfl
  · exact .inl rfl

/-- How many calls of a kind there are after a call has gone on. -/
lemma count_put (hi : t.callers[i]? = some c) (c' : Caller) (p : Caller → Bool) :
    (t.callers.set i c').countP p = t.callers.countP p - (p c).toNat + (p c').toNat := by
  obtain ⟨hlt, rfl⟩ := List.getElem?_eq_some_iff.mp hi
  rw [List.countP_set hlt]
  congr 1
  · congr 1
    cases p t.callers[i] <;> rfl
  · cases p c' <;> rfl

/-- A call of the kind is counted. -/
lemma count_pos (hi : t.callers[i]? = some c) {p : Caller → Bool} (hp : p c = true) :
    0 < t.callers.countP p :=
  List.countP_pos_iff.mpr ⟨c, List.mem_of_getElem? hi, hp⟩

/-- A call of `stop` that is past its notification is not among those that have to notify. -/
lemma notified_lt (hi : t.callers[i]? = some c) (hpublished : c.published = true)
    (hnotified : c.toNotifyStop = false) :
    t.callers.countP Caller.toNotifyStop < t.callers.countP Caller.published := by
  have hle : ∀ l : List Caller, l.countP Caller.toNotifyStop ≤ l.countP Caller.published := by
    intro l
    refine List.countP_mono_left fun c _ hc => ?_
    cases c <;> first | rfl | cases hc
  have hafter := hle (t.callers.set i .stopReturned)
  have hpos := count_pos hi hpublished
  rw [count_put hi, count_put hi, hpublished, hnotified] at hafter
  simp only [Caller.toNotifyStop, Caller.published, Bool.toNat_false, Bool.toNat_true] at hafter
  omega

/-- A section that takes place. -/
lemma shows {b : Monitored.Action} (h : t.view.step write b = some t'.view) :
    Machine.run (Monitored.step write) t.view [b] = some t'.view := by
  simp [Machine.run, h]

/-- An access that nothing is seen of. -/
lemma shows_nothing (h : t.view = t'.view) :
    Machine.run (Monitored.step write) t.view [] = some t'.view :=
  congrArg some h

/-- A call that goes on without anything being seen of it. -/
lemma view_put (hi : t.callers[i]? = some c) (hadd : c'.toNotifyAdd = c.toNotifyAdd)
    (hstop : c'.toNotifyStop = c.toNotifyStop) (hpublished : c'.published = c.published)
    (hstopped : c'.hasStopped = c.hasStopped) : (t.put i c').view = t.view := by
  have hsame : ∀ p : Caller → Bool, p c' = p c →
      (t.callers.set i c').countP p = t.callers.countP p := by
    intro p hp
    rw [count_put hi, hp]
    cases hc : p c with
    | false => rfl
    | true => exact Nat.sub_add_cancel (count_pos hi hc)
  simp only [view, put, hsame _ hadd, hsame _ hstop, hsame _ hpublished, hsame _ hstopped]
  rfl

/-- What is seen of a worker that is notified. -/
lemma view_notify (t : Threads σ) : t.notify.view = { t.view with asleep := false } := by
  cases hworker : t.worker <;> simp [view, notify, hworker, WorkerPoint.shown]

/-- **One access of a call.** -/
lemma call_shows (h : t.Consistent) (hi : t.callers[i]? = some c) (hcall : t.call i c = some t') :
    Machine.run (Monitored.step write) t.view (t.shownCall c).toList = some t'.view ∧
      t'.Consistent := by
  have hstep : t.step write (.caller i) = some t' :=
    Option.bind_eq_some_iff.mpr ⟨c, hi, hcall⟩
  have hexcludes := h.excludes.step hstep
  cases c with
  | adding request =>
      simp only [call] at hcall
      split_ifs at hcall with hfree
      cases hcall
      have hview : (t.put i (.addChecks request)).view = t.view := view_put hi rfl rfl rfl rfl
      exact ⟨shows_nothing hview.symm, h.goes hexcludes rfl (by simp) rfl rfl (.inl rfl)⟩
  | addChecks request =>
      simp only [call] at hcall
      split_ifs at hcall with hstopping
      · cases hcall
        have hview : (t.put i (.addLeaves false)).view = t.view := view_put hi rfl rfl rfl rfl
        refine ⟨?_, h.goes hexcludes rfl (by simp) rfl rfl (.inl rfl)⟩
        rw [shownCall, if_pos hstopping]
        refine shows ?_
        have hstep : t.view.step write (.add request) = some { t.view with
            system.added := t.added ++ [(request, false)] } := by
          simp [Monitored.step, LogWriterSystem.step, LogWriter.add, view, hstopping]
        rw [hstep, ← hview]
        rfl
      · cases hcall
        have hopen : t.stopping_ = false := by simpa using hstopping
        have hview : (t.put i (.addPushes request)).view = t.view := view_put hi rfl rfl rfl rfl
        refine ⟨?_, h.goes hexcludes rfl (fun _ _ => hopen) rfl rfl (.inl rfl)⟩
        rw [shownCall, if_neg hstopping]
        exact shows_nothing hview.symm
  | addPushes request =>
      cases hcall
      have hopen : t.stopping_ = false := h.pushes request (List.mem_of_getElem? hi)
      refine ⟨shows ?_, ⟨hexcludes, fun r hr => ?_, fun _ =>
        .inr (by simp), fun r hr => ?_⟩⟩
      · simp [Monitored.step, LogWriterSystem.step, LogWriter.add, view, hopen, count_put hi,
          Caller.toNotifyAdd, Caller.toNotifyStop, Caller.published, Caller.hasStopped]
      · exact hopen
      · obtain ⟨rest, hrest⟩ := h.pops r hr
        exact ⟨rest ++ [request], by simp [hrest]⟩
  | addLeaves result =>
      cases hcall
      have hview : (t.put i (if result then .addNotifies else .addReturned)).view = t.view :=
        view_put hi (by cases result <;> rfl) (by cases result <;> rfl) (by cases result <;> rfl)
          (by cases result <;> rfl)
      exact ⟨shows_nothing hview.symm,
        h.goes hexcludes rfl (by cases result <;> simp) rfl rfl (.inl rfl)⟩
  | addNotifies =>
      cases hcall
      have hpos := count_pos hi (p := Caller.toNotifyAdd) rfl
      refine ⟨shows ?_, h.goes hexcludes rfl (by simp) rfl rfl (notify_worker _)⟩
      rw [view_notify]
      simp [Monitored.step, view, hpos.ne', count_put hi, Caller.toNotifyAdd, Caller.toNotifyStop,
        Caller.published, Caller.hasStopped]
  | addReturned => cases hcall
  | stopping =>
      simp only [call] at hcall
      split_ifs at hcall with hfree
      cases hcall
      have hview : (t.put i .stopSets).view = t.view := view_put hi rfl rfl rfl rfl
      exact ⟨shows_nothing hview.symm, h.goes hexcludes rfl (by simp) rfl rfl (.inl rfl)⟩
  | stopSets =>
      cases hcall
      refine ⟨shows ?_, ⟨hexcludes, fun r hr => ?_, fun _ => .inl rfl, h.pops⟩⟩
      · simp [Monitored.step, LogWriterSystem.step, LogWriter.stop, view, count_put hi,
          Caller.toNotifyAdd, Caller.toNotifyStop, Caller.published, Caller.hasStopped]
      · -- no other thread is in its section
        rcases List.mem_or_eq_of_mem_set hr with hr | hr
        · obtain ⟨j, hj⟩ := List.getElem?_of_mem hr
          have hsame : Thread.caller i = .caller j := h.excludes.eq
            (by rw [inside_caller hi]; rfl) (by rw [inside_caller hj]; rfl)
          cases hsame
          rw [hi] at hj
          cases hj
        · cases hr
  | stopLeaves =>
      cases hcall
      have hview : (t.put i .stopNotifies).view = t.view := view_put hi rfl rfl rfl rfl
      exact ⟨shows_nothing hview.symm, h.goes hexcludes rfl (by simp) rfl rfl (.inl rfl)⟩
  | stopNotifies =>
      cases hcall
      have hpos := count_pos hi (p := Caller.toNotifyStop) rfl
      have hpublished := count_pos hi (p := Caller.published) rfl
      refine ⟨shows ?_, h.goes hexcludes rfl (by simp) rfl rfl (notify_worker _)⟩
      rw [view_notify]
      simp [Monitored.step, view, hpos.ne', count_put hi, Caller.toNotifyAdd, Caller.toNotifyStop,
        Caller.published, Caller.hasStopped, Nat.sub_add_cancel hpublished]
  | stopAsks =>
      cases hcall
      have hlt := notified_lt hi rfl rfl
      have hpublished := count_pos hi (p := Caller.published) rfl
      refine ⟨?_, h.goes hexcludes rfl (by split_ifs <;> simp) rfl rfl (.inl rfl)⟩
      rw [shownCall]
      cases hjoinable : t.joinable with
      | true =>
          have hview : (t.put i .stopJoins).view = t.view := view_put hi rfl rfl rfl rfl
          exact shows_nothing hview.symm
      | false =>
          refine shows ?_
          simp [Monitored.step, LogWriterSystem.step, LogWriter.join, view, count_put hi, hjoinable,
            hlt, hpublished.ne', Caller.toNotifyAdd, Caller.toNotifyStop, Caller.published,
            Caller.hasStopped]
  | stopJoins =>
      have hlt := notified_lt hi rfl rfl
      have hpublished := count_pos hi (p := Caller.published) rfl
      simp only [call] at hcall
      split_ifs at hcall with hended
      cases hcall
      refine ⟨shows ?_, h.goes hexcludes rfl (by simp) rfl rfl (.inl rfl)⟩
      simp [Monitored.step, LogWriterSystem.step, LogWriter.join, view, count_put hi, hended.1,
        hended.2, hlt, hpublished.ne', WorkerPoint.shown, Caller.toNotifyAdd, Caller.toNotifyStop,
        Caller.published, Caller.hasStopped]
  | stopReturned => cases hcall

/-- An access of the worker that leaves the callers and the flag alone. -/
lemma Consistent.works (h : t.Consistent) (hexcludes : t'.Excludes)
    (hcallers : t'.callers = t.callers) (hstopping : t'.stopping_ = t.stopping_)
    (htakes : t'.worker = .takes → t'.stopping_ = true ∨ t'.queue_ ≠ [])
    (hpops : ∀ request, t'.worker = .pops request → ∃ rest, t'.queue_ = request :: rest) :
    t'.Consistent where
  excludes := hexcludes
  pushes request hmem := by
    rw [hstopping]
    exact h.pushes request (hcallers ▸ hmem)
  takes := htakes
  pops := hpops

/-- **One access of the worker.** -/
lemma work_shows (h : t.Consistent) (hwork : t.work write = some t') :
    Machine.run (Monitored.step write) t.view t.shownWork.toList = some t'.view ∧
      t'.Consistent := by
  have hexcludes : t'.Excludes := h.excludes.step (a := .worker) hwork
  cases hworker : t.worker with
  | locking | woken =>
      simp only [work, hworker] at hwork
      split_ifs at hwork with hfree
      cases hwork
      refine ⟨?_, h.works hexcludes rfl rfl (fun heq => by cases heq) fun _ heq => by cases heq⟩
      rw [shownWork, hworker]
      exact shows_nothing (by simp [view, hworker, WorkerPoint.shown])
  | checks =>
      simp only [work, hworker] at hwork
      split_ifs at hwork with hready
      · cases hwork
        refine ⟨?_, h.works hexcludes rfl rfl (fun _ => ?_) fun _ heq => by cases heq⟩
        · simp only [shownWork, hworker, if_pos hready]
          exact shows_nothing (by simp [view, hworker, WorkerPoint.shown])
        · simpa using hready
      · cases hwork
        refine ⟨?_, h.works hexcludes rfl rfl (fun heq => by cases heq) fun _ heq => by
          cases heq⟩
        simp only [shownWork, hworker, if_neg hready]
        refine shows ?_
        simp [Monitored.step, LogWriterSystem.step, LogWriter.wait, view, hworker, hready,
          WorkerPoint.shown]
  | sleeping => simp only [work, hworker] at hwork; cases hwork
  | takes =>
      simp only [work, hworker] at hwork
      cases hqueue : t.queue_ with
      | nil =>
          simp only [hqueue] at hwork
          cases hwork
          refine ⟨?_, h.works hexcludes rfl rfl (fun heq => by cases heq) fun _ heq => by
            cases heq⟩
          have hstopping : t.stopping_ = true := by simpa [hqueue] using h.takes hworker
          simp only [shownWork, hworker, hqueue, List.isEmpty_nil, if_true]
          refine shows ?_
          simp [Monitored.step, LogWriterSystem.step, LogWriter.wait, view, hworker, hqueue,
            hstopping, WorkerPoint.shown]
      | cons request queue =>
          simp only [hqueue] at hwork
          cases hwork
          refine ⟨?_, h.works hexcludes rfl rfl (fun heq => by cases heq) fun r heq => ?_⟩
          · simp only [shownWork, hworker, hqueue, List.isEmpty_cons]
            exact shows_nothing (by simp [view, hworker, hqueue, WorkerPoint.shown])
          · cases heq
            exact ⟨queue, rfl⟩
  | pops request =>
      simp only [work, hworker] at hwork
      cases hwork
      refine ⟨?_, h.works hexcludes rfl rfl (fun heq => by cases heq) fun _ heq => by cases heq⟩
      obtain ⟨rest, hqueue⟩ := h.pops request hworker
      simp only [shownWork, hworker]
      refine shows ?_
      simp [Monitored.step, LogWriterSystem.step, LogWriter.wait, view, hworker, hqueue,
        WorkerPoint.shown]
  | leaves result =>
      cases result with
      | none =>
          simp only [work, hworker] at hwork
          cases hwork
          refine ⟨?_, h.works hexcludes rfl rfl (fun heq => by cases heq) fun _ heq => by
            cases heq⟩
          simp only [shownWork, hworker]
          exact shows_nothing (by simp [view, hworker, WorkerPoint.shown])
      | some request =>
          simp only [work, hworker] at hwork
          cases hwork
          refine ⟨?_, h.works hexcludes rfl rfl (fun heq => by cases heq) fun _ heq => by
            cases heq⟩
          simp only [shownWork, hworker]
          exact shows_nothing (by simp [view, hworker, WorkerPoint.shown])
  | writing request =>
      simp only [work, hworker] at hwork
      obtain ⟨storage, hstorage, rfl⟩ := Option.map_eq_some_iff.mp hwork
      refine ⟨?_, h.works hexcludes rfl rfl (fun heq => by cases heq) fun _ heq => by cases heq⟩
      simp only [shownWork, hworker]
      refine shows ?_
      simp [Monitored.step, LogWriterSystem.step, view, hworker, hstorage, WorkerPoint.shown]
  | ended => simp only [work, hworker] at hwork; cases hwork

/-- A call that comes in is not seen. -/
lemma Consistent.enter_shows (h : t.Consistent) (hout : c.inside = false)
    (hadd : c.toNotifyAdd = false)
    (hstop : c.toNotifyStop = false) (hpublished : c.published = false)
    (hstopped : c.hasStopped = false) :
    ({ t with callers := t.callers ++ [c] } : Threads σ).view = t.view ∧
      ({ t with callers := t.callers ++ [c] } : Threads σ).Consistent := by
  refine ⟨by simp [view, hadd, hstop, hpublished, hstopped],
    ⟨h.excludes.enter hout, fun request hmem => ?_, h.takes, h.pops⟩⟩
  rcases List.mem_append.mp hmem with hmem | hmem
  · exact h.pushes request hmem
  · rw [← List.mem_singleton.mp hmem] at hout
    cases hout

/-- **One access of one thread.** -/
lemma step_shows (h : t.Consistent) (hstep : t.step write a = some t') :
    Machine.run (Monitored.step write) t.view (t.shown a t') = some t'.view ∧ t'.Consistent := by
  cases a with
  | add request =>
      cases hstep
      obtain ⟨hview, hconsistent⟩ := h.enter_shows (c := .adding request) rfl rfl rfl rfl rfl
      exact ⟨shows_nothing hview.symm, hconsistent⟩
  | stop =>
      cases hstep
      obtain ⟨hview, hconsistent⟩ := h.enter_shows (c := .stopping) rfl rfl rfl rfl rfl
      exact ⟨shows_nothing hview.symm, hconsistent⟩
  | caller i =>
      obtain ⟨c, hi, hcall⟩ := Option.bind_eq_some_iff.mp hstep
      rw [shown, hi]
      exact call_shows h hi hcall
  | worker => exact work_shows h hstep
  | wake =>
      have hexcludes := h.excludes.step hstep
      simp only [step] at hstep
      split_ifs at hstep with hsleeping
      cases hstep
      refine ⟨shows ?_, h.works hexcludes rfl rfl (fun heq => by cases heq) fun _ heq => by
        cases heq⟩
      simp [Monitored.step, view, hsleeping, WorkerPoint.shown]

/-- What a run shows is a run of the writer whose sections are single steps. -/
lemma refines_of_run (hrun : Machine.run (step write) (start storage) actions = some t) :
    Machine.run (Monitored.step write) (Monitored.start storage)
      (Protocol.trace (step write) shown (start storage) actions) = some t.view := by
  have hstart : (start storage).view = Monitored.start storage := rfl
  have hstep : ∀ (t : Threads σ) m a t', t.Consistent ∧ m = t.view →
    t.step write a = some t' →
      ∃ m', Machine.run (Monitored.step write) m (t.shown a t') = some m' ∧
        t'.Consistent ∧ m' = t'.view := by
    rintro t m a t' ⟨h, rfl⟩ hstep
    obtain ⟨hshown, h'⟩ := step_shows h hstep
    exact ⟨_, hshown, h', rfl⟩
  obtain ⟨m, hm, -, rfl⟩ := Protocol.trace_simulates_of_step hstep
    ⟨consistent_start storage, hstart.symm⟩ hrun
  exact hm

/-- **The threads do nothing that the writer does not do whose sections are single steps**, and so
nothing that the writer without a condition variable does not do: no two threads are in a section
under the mutex, and a section takes place with the access that decides it. -/
theorem threads_refine (hrun : Machine.run (step write) (start storage) actions = some t) :
    let trace := Protocol.trace (step write) shown (start storage) actions
    t.Excludes ∧ Machine.run (Monitored.step write)
      (Monitored.start storage) trace = some t.view ∧
      Machine.run (LogWriterSystem.step write) (LogWriterSystem.start storage)
        (trace.filterMap Monitored.Action.shown) = some t.view.system := by
  have hshown := refines_of_run hrun
  exact ⟨excludes_of_run hrun, hshown, Monitored.monitored_refines hshown⟩

/-- A call of `add` finds the worker at its predicate, and has the mutex only after the worker
sleeps. -/
theorem threads_refine_waiting : ∃ t, Machine.run (step fun (_ : Unit) _ => some ()) (start ())
      [.worker, .add ⟨[97], 0, [], 7⟩, .worker, .caller 0, .caller 0, .caller 0,
        .caller 0, .caller 0, .worker] = some t ∧ t.Excludes ∧
    Machine.run (Monitored.step fun (_ : Unit) _ => some ()) (Monitored.start ())
      [.check, .add ⟨[97], 0, [], 7⟩, .notifyAdd] = some t.view ∧
    Machine.run (LogWriterSystem.step fun (_ : Unit) _ => some ()) (LogWriterSystem.start ())
      [.wait, .add ⟨[97], 0, [], 7⟩] = some t.view.system := by
  have hrun : Machine.run (step fun (_ : Unit) _ => some ()) (start ())
      [.worker, .add ⟨[97], 0, [], 7⟩, .worker, .caller 0, .caller 0, .caller 0,
        .caller 0, .caller 0, .worker] = some
          ⟨[⟨[97], 0, [], 7⟩], false, (), some .worker, true, .checks, [.addReturned],
          [(⟨[97], 0, [], 7⟩, true)], []⟩ := rfl
  exact ⟨_, hrun, threads_refine hrun⟩

/-! ## The writer comes to an end -/

end Threads

/-- The accesses that a call makes at most before it returns. -/
def Caller.left : Caller → ℕ
  | adding _ => 5
  | addChecks _ => 4
  | addPushes _ => 3
  | addLeaves result => if result then 2 else 1
  | addNotifies => 1
  | stopping => 6
  | stopSets => 5
  | stopLeaves => 4
  | stopNotifies => 3
  | stopAsks => 2
  | stopJoins => 1
  | addReturned | stopReturned => 0

lemma Caller.left_le (c : Caller) : c.left ≤ 6 := by
  cases c with
  | addLeaves result => cases result <;> simp [left]
  | _ => simp [left]

/-- A call that has returned. -/
def Caller.returned : Caller → Bool
  | addReturned | stopReturned => true
  | _ => false

/-- A call of `stop` that has not returned. -/
def Caller.inStop : Caller → Bool
  | stopping | stopSets | stopLeaves | stopNotifies | stopAsks | stopJoins => true
  | _ => false

/-- The accesses of the worker to the end of its loop when the queue is empty and `stopping_` is
set. -/
def WorkerPoint.left : WorkerPoint → ℕ
  | leaves (some _) => 6
  | writing _ => 5
  | locking | sleeping | woken => 4
  | checks => 3
  | takes => 2
  | pops _ => 1
  | leaves none => 1
  | ended => 0

namespace Threads

variable {σ : Type*} {write : σ → LogRequest → Option σ} {t t' : Threads σ} {i j : ℕ}
  {c c' : Caller}
  {a : Action} {storage : σ} {actions : List Action}

/-- The accesses of the worker to the end of its loop when `stopping_` is set. -/
def workLeft (t : Threads σ) : ℕ := 6 * t.queue_.length + t.worker.left

/-- The accesses that a call makes at most, also one that has not come in. -/
def leftOf (t : Threads σ) (i : ℕ) : ℕ := t.callers[i]?.elim 6 Caller.left

/-- An access of a call. -/
lemma call_left (hcall : t.call i c = some t') :
    ∃ c', t'.callers = t.callers.set i c' ∧ c'.left + 1 ≤ c.left := by
  cases c with
  | adding request =>
      simp only [call] at hcall
      split_ifs at hcall
      cases hcall
      exact ⟨_, rfl, le_rfl⟩
  | addChecks request =>
      simp only [call] at hcall
      split_ifs at hcall
      · cases hcall
        exact ⟨.addLeaves false, rfl, by simp [Caller.left]⟩
      · cases hcall
        exact ⟨_, rfl, le_rfl⟩
  | addPushes request =>
      cases hcall
      exact ⟨_, rfl, le_rfl⟩
  | addLeaves result =>
      cases hcall
      exact ⟨_, rfl, by cases result <;> decide⟩
  | addNotifies =>
      cases hcall
      exact ⟨_, rfl, le_rfl⟩
  | addReturned => cases hcall
  | stopping =>
      simp only [call] at hcall
      split_ifs at hcall
      cases hcall
      exact ⟨_, rfl, le_rfl⟩
  | stopSets | stopLeaves | stopNotifies =>
      cases hcall
      exact ⟨_, rfl, le_rfl⟩
  | stopAsks =>
      cases hcall
      exact ⟨_, rfl, by split_ifs <;> decide⟩
  | stopJoins =>
      simp only [call] at hcall
      split_ifs at hcall
      cases hcall
      exact ⟨_, rfl, le_rfl⟩
  | stopReturned => cases hcall

/-- The worker leaves the calls, `joinable` and the flag alone, and comes closer to the end of its
loop when the flag is set. -/
lemma work_left (h : t.Consistent) (hwork : t.work write = some t') :
    t'.callers = t.callers ∧ t'.joinable = t.joinable ∧ t'.stopping_ = t.stopping_ ∧
      (t.stopping_ = true → t'.workLeft + 1 ≤ t.workLeft) := by
  simp only [workLeft]
  cases hworker : t.worker with
  | locking | woken =>
      simp only [work, hworker] at hwork
      split_ifs at hwork
      cases hwork
      exact ⟨rfl, rfl, rfl, fun _ => le_rfl⟩
  | checks =>
      simp only [work, hworker] at hwork
      split_ifs at hwork with hready
      · cases hwork
        exact ⟨rfl, rfl, rfl, fun _ => le_rfl⟩
      · cases hwork
        exact ⟨rfl, rfl, rfl, fun hstopping => absurd (by rw [hstopping]; rfl) hready⟩
  | sleeping => simp only [work, hworker] at hwork; cases hwork
  | takes =>
      simp only [work, hworker] at hwork
      cases hqueue : t.queue_ with
      | nil =>
          simp only [hqueue] at hwork
          cases hwork
          exact ⟨rfl, rfl, rfl, fun _ => le_rfl⟩
      | cons request queue =>
          simp only [hqueue] at hwork
          cases hwork
          exact ⟨rfl, rfl, rfl, fun _ => le_rfl⟩
  | pops request =>
      obtain ⟨rest, hqueue⟩ := h.pops request hworker
      simp only [work, hworker] at hwork
      cases hwork
      refine ⟨rfl, rfl, rfl, fun _ => ?_⟩
      simp only [hqueue, List.tail_cons, List.length_cons, WorkerPoint.left]
      omega
  | leaves result =>
      cases result with
      | none =>
          simp only [work, hworker] at hwork
          cases hwork
          exact ⟨rfl, rfl, rfl, fun _ => le_rfl⟩
      | some request =>
          simp only [work, hworker] at hwork
          cases hwork
          exact ⟨rfl, rfl, rfl, fun _ => le_rfl⟩
  | writing request =>
      simp only [work, hworker] at hwork
      obtain ⟨storage, -, rfl⟩ := Option.map_eq_some_iff.mp hwork
      exact ⟨rfl, rfl, rfl, fun _ => le_rfl⟩
  | ended => simp only [work, hworker] at hwork; cases hwork

/-- **Every access of a call is paid for**, and accesses of others cost it nothing. -/
lemma leftOf_step (h : t.Consistent) (hstep : t.step write a = some t') :
    t'.leftOf i + (a == .caller i).toNat ≤ t.leftOf i := by
  have henter : ∀ c : Caller, c.left ≤ 6 →
      (t.callers ++ [c])[i]?.elim 6 Caller.left ≤ t.callers[i]?.elim 6 Caller.left := by
    intro c hc
    by_cases hlt : i < t.callers.length
    · rw [List.getElem?_append_left hlt]
    · rw [List.getElem?_eq_none (not_lt.mp hlt)]
      cases hget : (t.callers ++ [c])[i]? with
      | none => exact le_rfl
      | some d =>
          rw [List.getElem?_append_right (not_lt.mp hlt)] at hget
          rw [List.mem_singleton.mp (List.mem_of_getElem? hget)]
          exact hc
  cases a with
  | add request =>
      cases hstep
      exact henter (.adding request) (Nat.le_succ 5)
  | stop =>
      cases hstep
      exact henter .stopping le_rfl
  | wake =>
      simp only [step] at hstep
      split_ifs at hstep
      cases hstep
      exact le_rfl
  | worker =>
      rw [leftOf, (work_left h hstep).1]
      exact le_rfl
  | caller j =>
      obtain ⟨c, hj, hcall⟩ := Option.bind_eq_some_iff.mp hstep
      obtain ⟨c', hcallers, hleft⟩ := call_left hcall
      obtain ⟨hlt, -⟩ := List.getElem?_eq_some_iff.mp hj
      rw [leftOf, leftOf, hcallers]
      by_cases hji : j = i
      · subst hji
        rw [List.getElem?_set_self hlt, hj]
        simpa using hleft
      · simp [List.getElem?_set_ne hji, hji]

/-- What a call can do to the worker and the queue. -/
lemma call_work (h : t.Consistent) (hi : t.callers[i]? = some c) (hcall : t.call i c = some t')
    (hstopping : t.stopping_ = true) : t'.stopping_ = true ∧ t'.queue_ = t.queue_ ∧
      t'.worker.left = t.worker.left := by
  have hnotify : ∀ t : Threads σ, t.notify.worker.left = t.worker.left := by
    intro t
    simp only [notify]
    split_ifs with hsleeping
    · rw [hsleeping]
      rfl
    · rfl
  cases c with
  | adding request | stopping | stopJoins =>
      simp only [call] at hcall
      split_ifs at hcall
      cases hcall
      exact ⟨hstopping, rfl, rfl⟩
  | addChecks request =>
      simp only [call, if_pos hstopping] at hcall
      cases hcall
      exact ⟨hstopping, rfl, rfl⟩
  | addPushes request =>
      -- `stopping_` is set under the mutex
      have hopen := h.pushes request (List.mem_of_getElem? hi)
      rw [hopen] at hstopping
      cases hstopping
  | addLeaves result | stopLeaves | stopAsks =>
      cases hcall
      exact ⟨hstopping, rfl, rfl⟩
  | addNotifies | stopNotifies =>
      cases hcall
      exact ⟨hstopping, rfl, hnotify _⟩
  | stopSets =>
      cases hcall
      exact ⟨rfl, rfl, rfl⟩
  | addReturned => cases hcall
  | stopReturned => cases hcall

/-- **Every access of the worker is paid for** once `stopping_` is set, and accesses of others cost
it nothing. -/
lemma left_step (h : t.Consistent) (hstopping : t.stopping_ = true)
    (hstep : t.step write a = some t') : t'.stopping_ = true ∧
      t'.workLeft + (a == .worker).toNat ≤ t.workLeft := by
  cases a with
  | add request =>
      cases hstep
      exact ⟨hstopping, le_rfl⟩
  | stop =>
      cases hstep
      exact ⟨hstopping, le_rfl⟩
  | wake =>
      simp only [step] at hstep
      split_ifs at hstep with hsleeping
      cases hstep
      exact ⟨hstopping, by simp only [workLeft, hsleeping]; exact le_rfl⟩
  | worker =>
      obtain ⟨-, -, hsame, hleft⟩ := work_left h hstep
      exact ⟨hsame.trans hstopping, hleft hstopping⟩
  | caller i =>
      obtain ⟨c, hi, hcall⟩ := Option.bind_eq_some_iff.mp hstep
      obtain ⟨hstop, hqueue, hleft⟩ := call_work h hi hcall hstopping
      rw [workLeft, hqueue, hleft]
      exact ⟨hstop, le_rfl⟩

/-- What holds when calls of `stop` do not overlap. -/
structure OneStops (t : Threads σ) : Prop where
  one : t.callers.countP Caller.inStop ≤ 1
  joins : Caller.stopJoins ∈ t.callers → t.joinable = true

/-- `stop` is called when no other call of it is under way. -/
def OneStop (t : Threads σ) (a : Action) : Prop :=
  a = .stop → t.callers.countP Caller.inStop = 0

instance (t : Threads σ) (a : Action) : Decidable (t.OneStop a) :=
  inferInstanceAs (Decidable (_ → _))

/-- What a call can do to `joinable`. -/
lemma call_joinable (hcall : t.call i c = some t') : ∃ c', t'.callers = t.callers.set i c' ∧
    (c'.inStop = true → c.inStop = true) ∧
    (t'.joinable = t.joinable ∧ (c' = .stopJoins → t.joinable = true) ∨
      c.inStop = true ∧ c'.inStop = false) := by
  cases c with
  | adding request | stopping | stopJoins =>
      simp only [call] at hcall
      split_ifs at hcall
      cases hcall
      exact ⟨_, rfl, by simp [Caller.inStop], by simp [Caller.inStop]⟩
  | addChecks request =>
      simp only [call] at hcall
      split_ifs at hcall
      · cases hcall
        exact ⟨.addLeaves false, rfl, by simp [Caller.inStop], .inl ⟨rfl, by simp⟩⟩
      · cases hcall
        exact ⟨_, rfl, by simp [Caller.inStop], .inl ⟨rfl, by simp⟩⟩
  | addPushes request | addNotifies | stopSets | stopLeaves | stopNotifies =>
      cases hcall
      exact ⟨_, rfl, by simp [Caller.inStop], .inl ⟨rfl, by simp⟩⟩
  | addLeaves result =>
      cases hcall
      cases result <;> exact ⟨_, rfl, by simp [Caller.inStop], .inl ⟨rfl, by simp⟩⟩
  | stopAsks =>
      cases hcall
      exact ⟨_, rfl, by simp [Caller.inStop], .inl ⟨rfl, by split_ifs with h <;> simp [h]⟩⟩
  | addReturned => cases hcall
  | stopReturned => cases hcall

/-- **One access of one thread**, when calls of `stop` do not overlap. -/
lemma OneStops.step (h : t.OneStops) (hconsistent : t.Consistent) (hone : t.OneStop a)
    (hstep : t.step write a = some t') : t'.OneStops := by
  cases a with
  | add request =>
      cases hstep
      exact ⟨by simpa [Caller.inStop] using h.one, by simpa using h.joins⟩
  | stop =>
      cases hstep
      exact ⟨by simp [hone rfl, Caller.inStop], by simpa using h.joins⟩
  | wake =>
      simp only [Threads.step] at hstep
      split_ifs at hstep
      cases hstep
      exact ⟨h.one, h.joins⟩
  | worker =>
      obtain ⟨hcallers, hjoinable, -⟩ := work_left hconsistent hstep
      exact ⟨by rw [hcallers]; exact h.one, by rw [hcallers, hjoinable]; exact h.joins⟩
  | caller i =>
      obtain ⟨c, hi, hcall⟩ := Option.bind_eq_some_iff.mp hstep
      obtain ⟨c', hcallers, hin, hjoinable⟩ := call_joinable hcall
      have hcount := count_put hi c' Caller.inStop
      rw [← hcallers] at hcount
      have hone := h.one
      have hle : (c'.inStop).toNat ≤ (c.inStop).toNat := by
        cases hc' : c'.inStop with
        | false => exact Nat.zero_le _
        | true => rw [hin hc']
      refine ⟨?_, fun hmem => ?_⟩
      · cases hc : c.inStop with
        | false =>
            rw [hc] at hcount hle
            simp only [Bool.toNat_false] at hcount hle
            omega
        | true =>
            have := Bool.toNat_le c'.inStop
            rw [hc] at hcount
            simp only [Bool.toNat_true] at hcount
            omega
      · rcases hjoinable with ⟨hsame, hjoins⟩ | ⟨hc, hc'⟩
        · rw [hcallers] at hmem
          rw [hsame]
          rcases List.mem_or_eq_of_mem_set hmem with hmem | heq
          · exact h.joins hmem
          · exact hjoins heq.symm
        · -- the call that has joined was the only one
          have hpos : 0 < t'.callers.countP Caller.inStop :=
            List.countP_pos_iff.mpr ⟨_, hmem, rfl⟩
          rw [hc, hc'] at hcount
          simp only [Bool.toNat_true, Bool.toNat_false] at hcount
          omega

/-- An access that a thread can always make: no one else is asked. -/
lemma work_inside (write : σ → LogRequest → Option σ) (h : t.worker.inside = true) :
    (t.work write).isSome = true := by
  cases hworker : t.worker with
  | checks =>
      simp only [work, hworker]
      split_ifs <;> rfl
  | takes =>
      simp only [work, hworker]
      cases t.queue_ <;> rfl
  | pops request => simp [work, hworker]
  | leaves result =>
      simp only [work, hworker]
      cases result <;> rfl
  | locking | sleeping | woken | writing _ | ended =>
      rw [hworker] at h
      cases h

/-- A call that has not returned goes on when the mutex is free, and when the worker has ended if it
is to be joined. -/
lemma call_goes (t : Threads σ) (i : ℕ) (hc : c.returned = false)
    (hmutex : c.inside = true ∨ t.mutex_ = none)
    (hjoin : c = .stopJoins → t.worker = .ended ∧ t.joinable = true) :
    (t.call i c).isSome = true := by
  cases c with
  | adding request | stopping =>
      rcases hmutex with hin | hfree
      · cases hin
      · simp [call, hfree]
  | addChecks request =>
      simp only [call]
      split_ifs <;> rfl
  | stopJoins => simp [call, hjoin rfl]
  | addPushes _ | addLeaves _ | addNotifies | stopSets | stopLeaves | stopNotifies | stopAsks => rfl
  | addReturned => cases hc
  | stopReturned => cases hc

/-- A thread of the writer goes on. -/
def Action.own : Action → Bool
  | caller _ | worker => true
  | add _ | stop | wake => false

/-- **When no thread can go on, the worker has ended**, and a call that has not returned is in the
`join` of a thread that another call has joined. -/
lemma at_rest (hwrite : ∀ st request, (write st request).isSome = true) (h : t.Consistent)
    (hawake : t.view.Awake) (hstopping : t.stopping_ = true)
    (hrest : ∀ a : Action, a.own = true → t.step write a = none) :
    t.worker = .ended ∧ ∀ c ∈ t.callers, c.returned = true ∨ c = .stopJoins ∧
      t.joinable = false := by
  have hwork : t.work write = none := hrest .worker rfl
  have hcall : ∀ i c, t.callers[i]? = some c → t.call i c = none := by
    intro i c hi
    have hnone := hrest (.caller i) rfl
    rwa [step, hi, Option.bind_some] at hnone
  have hfree : t.mutex_ = none := by
    by_contra hsome
    obtain ⟨u, hu⟩ := Option.ne_none_iff_exists'.mp hsome
    have hin := (h.excludes u).mpr hu
    cases u with
    | worker =>
        have hgoes := work_inside write hin
        rw [hwork] at hgoes
        cases hgoes
    | caller i =>
        cases hi : t.callers[i]? with
        | none => simp [inside, hi] at hin
        | some c =>
            rw [inside_caller hi] at hin
            have hgoes := t.call_goes i (c := c) (by cases c <;> first | rfl | cases hin) (.inl hin)
              (by rintro rfl; cases hin)
            rw [hcall i c hi] at hgoes
            cases hgoes
  have hended : t.worker = .ended := by
    cases hworker : t.worker with
    | locking | woken => simp [work, hworker, hfree] at hwork
    | checks | takes | pops _ | leaves _ =>
        have hgoes := t.work_inside write (by rw [hworker]; rfl)
        rw [hwork] at hgoes
        cases hgoes
    | writing request =>
        obtain ⟨storage, hstorage⟩ := Option.isSome_iff_exists.mp (hwrite t.storage_ request)
        simp [work, hworker, hstorage] at hwork
    | ended => rfl
    | sleeping =>
        -- someone is to notify it, and can
        have htold := hawake.told (by simp [view, hworker]) (.inl hstopping)
        obtain ⟨c, hc, hnotifies⟩ : ∃ c ∈ t.callers, (c.toNotifyAdd || c.toNotifyStop) =
          true := by
          rcases Nat.add_pos_iff_pos_or_pos.mp htold with hpos | hpos
          · obtain ⟨c, hc, hadd⟩ := List.countP_pos_iff.mp hpos
            exact ⟨c, hc, by rw [hadd]; rfl⟩
          · obtain ⟨c, hc, hstop⟩ := List.countP_pos_iff.mp hpos
            exact ⟨c, hc, by rw [hstop, Bool.or_true]⟩
        obtain ⟨i, hi⟩ := List.getElem?_of_mem hc
        have hgoes := t.call_goes i (c := c) (by cases c <;> first | rfl | cases hnotifies)
          (.inr hfree) (by rintro rfl; cases hnotifies)
        rw [hcall i c hi] at hgoes
        cases hgoes
  refine ⟨hended, fun c hc => ?_⟩
  obtain ⟨i, hi⟩ := List.getElem?_of_mem hc
  by_contra hnot
  obtain ⟨hreturned, hjoin⟩ := not_or.mp hnot
  have hgoes := t.call_goes i (c := c) (by simpa using hreturned) (.inr hfree)
    fun heq => ⟨hended, by simpa [heq] using hjoin⟩
  rw [hcall i c hi] at hgoes
  cases hgoes

/-- What a run keeps. -/
lemma consistent_of_run (hrun : Machine.run (step write) (start storage) actions = some t) :
    t.Consistent :=
  Machine.run_invariant_of_step (fun _ _ _ h hstep => (step_shows h hstep).2)
    (consistent_start storage) hrun

/-- **After `stop` has set the flag the writer drains its queue and ends**, however the accesses of
the threads are ordered.  The worker makes no more accesses than the queue and its place ask for,
whatever calls come in, and no call makes more than six.  And when no thread can go on, as long as
`Storage::write` returns, everything accepted is written in the order of its admission and the
worker has ended; when calls of `stop` did not overlap, every call has returned. -/
theorem drains (hrun : Machine.run (step write) (start storage) actions = some t)
    (hstopping : t.stopping_ = true) :
    (∀ more t', Machine.run (step write) t more = some t' →
      more.count .worker ≤ 6 * t.queue_.length + 6 ∧ ∀ i, more.count (.caller i) ≤ 6) ∧
    ((∀ st request, (write st request).isSome = true) →
      (∀ a : Action, a.own = true → t.step write a = none) →
      t.worker = .ended ∧ t.written = t.accepted ∧
        (Machine.Throughout (step write) OneStop (start storage) actions →
          ∀ c ∈ t.callers, c.returned = true)) := by
  have hconsistent := consistent_of_run hrun
  refine ⟨fun more t' hmore => ⟨?_, fun i => ?_⟩, fun hwrite hrest => ?_⟩
  · have hinv : ∀ (t : Threads σ) a t', t.Consistent ∧ t.stopping_ = true →
        t.step write a = some t' → t'.Consistent ∧ t'.stopping_ = true := fun t a t' ht hstep =>
      ⟨(step_shows ht.1 hstep).2, (left_step ht.1 ht.2 hstep).1⟩
    have hpaid : more.count .worker ≤ t.workLeft :=
      Machine.run_potential hinv (fun t a t' ht hstep => (left_step ht.1 ht.2 hstep).2)
        ⟨hconsistent, hstopping⟩ hmore
    refine hpaid.trans (Nat.add_le_add_left ?_ _)
    cases t.worker with
    | leaves result => cases result <;> simp [WorkerPoint.left]
    | _ => simp [WorkerPoint.left]
  · have hinv : ∀ (t : Threads σ) a t', t.Consistent → t.step write a = some t' →
      t'.Consistent :=
      fun t a t' ht hstep => (step_shows ht hstep).2
    have hpaid : more.count (.caller i) ≤ t.leftOf i :=
      Machine.run_potential hinv (fun t a t' ht hstep => leftOf_step ht hstep) hconsistent hmore
    refine hpaid.trans ?_
    rw [leftOf]
    cases t.callers[i]? with
    | none => exact le_rfl
    | some c => exact c.left_le
  · have hshown := refines_of_run hrun
    obtain ⟨hended, hcalls⟩ := at_rest hwrite hconsistent (Monitored.awake_of_run hshown)
      hstopping hrest
    have hexited : t.view.system.writer.thread_ = .exited := by
      simp only [view, hended, WorkerPoint.shown]
    have hwritten := (LogWriterSystem.reachable_inv (Monitored.monitored_refines hshown)).2 hexited
    refine ⟨hended, hwritten, fun hone c hc => ?_⟩
    have hkept : ∀ (t : Threads σ) a t', t.Consistent ∧ t.OneStops → t.OneStop a →
        t.step write a = some t' → t'.Consistent ∧ t'.OneStops := fun t a t' ht ha hstep =>
      ⟨(step_shows ht.1 hstep).2, ht.2.step ht.1 ha hstep⟩
    have hstart : (start storage).Consistent ∧ (start storage).OneStops :=
      ⟨consistent_start storage, by simp [start], by simp [start]⟩
    obtain ⟨-, -, hjoins⟩ := Machine.run_invariant hkept hstart hone hrun
    rcases hcalls c hc with hreturned | ⟨rfl, hjoined⟩
    · exact hreturned
    · rw [hjoins hc] at hjoined
      cases hjoined

/-- A request comes in while the worker sleeps, and `stop` before the worker is back. -/
def restless : List Action :=
  [.worker, .worker, .add ⟨ascii "a", 0, [], 7⟩, .caller 0, .stop, .wake, .caller 0, .caller 0,
    .caller 0, .caller 1, .caller 1, .caller 0, .caller 1, .caller 1, .worker, .worker,
      .worker, .worker,
    .caller 1, .worker, .worker, .worker, .worker, .worker, .worker, .caller 1]

/-- One request, written before `stop` returns. -/
theorem drains_restless : ∃ t, Machine.run (step fun (_ : Unit) _ => some ())
    (start ()) restless =
    some t ∧ t.worker = .ended ∧ t.written = t.accepted ∧ t.written.length = 1 ∧
      ∀ c ∈ t.callers, c.returned = true := by
  have hrun : Machine.run (step fun (_ : Unit) _ => some ()) (start ()) restless =
      some ⟨[], true, (), none, false, .ended, [.addReturned, .stopReturned],
        [(⟨ascii "a", 0, [], 7⟩, true)], [⟨ascii "a", 0, [], 7⟩]⟩ := by
    decide +kernel
  have hone : Machine.Throughout (step fun (_ : Unit) _ => some ()) OneStop (start ())
    restless := by
    decide +kernel
  obtain ⟨-, hrests⟩ := drains hrun rfl
  have hrest : ∀ a : Action, a.own = true →
      step (fun (_ : Unit) _ => some ()) ⟨[], true, (), none, false, .ended,
        [.addReturned, .stopReturned], [(⟨ascii "a", 0, [], 7⟩, true)],
          [⟨ascii "a", 0, [], 7⟩]⟩ a =
        none := by
    intro a ha
    cases a with
    | caller i =>
        obtain _ | _ | i := i
        · rfl
        · rfl
        · rfl
    | worker => rfl
    | add request => cases ha
    | stop => cases ha
    | wake => cases ha
  obtain ⟨hended, hwritten, hreturned⟩ := hrests (fun _ _ => rfl) hrest
  exact ⟨_, hrun, hended, hwritten, rfl, hreturned hone⟩

end Threads

end Tracebox
