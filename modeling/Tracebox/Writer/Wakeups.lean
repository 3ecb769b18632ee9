import Tracebox.Lib.Progress
import Tracebox.Writer.LogWriter

/-!
# Waiting and waking up

The worker of `LogWriter` sleeps in `condition_.wait`, and `add` and `stop` wake it with
`notify_one` after they have left the mutex.  Between the two anything can happen: the worker looks
at its condition and goes to sleep, or wakes up without reason.

* `Monitored` — the writer with its condition variable, one step for a section under the mutex, a
  notification, a wake-up.
* `monitored_refines` — what it shows of the writer without a condition variable.
* `no_lost_wakeup` — **the worker never sleeps over work that no one is about to tell it of.**

`Tracebox.Threads` is the level below, where the sections under the mutex are not single steps.
-/

namespace Tracebox

open Bytes

/-- The writer and its condition variable. -/
structure Monitored (σ : Type*) where
  system : LogWriterSystem σ
  /-- the worker is in `condition_.wait` and was not woken -/
  asleep : Bool := false
  /-- calls of `add` that have left the mutex and have not notified -/
  adding : ℕ := 0
  /-- calls of `stop` that have left the mutex and have not notified -/
  stopping : ℕ := 0

namespace Monitored

/-- The sections of the threads, and what wakes the worker. -/
inductive Action where
  /-- the section of `add` -/
  | add (request : LogRequest)
  /-- the section of `stop` -/
  | stop
  /-- `notify_one` of an `add` -/
  | notifyAdd
  /-- `notify_one` of a `stop` -/
  | notifyStop
  /-- the worker has the mutex and looks at its condition -/
  | check
  /-- `condition_.wait` returns without a notification -/
  | wake
  /-- `Storage::write` returns -/
  | write
  /-- a `stop` goes past the join and returns -/
  | join
  deriving DecidableEq

variable {σ : Type*} (write : σ → LogRequest → Option σ)

/-- The writer when its constructor has returned. -/
def start (storage : σ) : Monitored σ := { system := .start storage }

/-- One step; none when the action is not possible. -/
def step (m : Monitored σ) : Action → Option (Monitored σ)
  | .add request => (m.system.step write (.add request)).map fun s =>
      -- a refused request is not notified
      { m with system := s, adding := if m.system.writer.stopping_ then m.adding else m.adding + 1 }
  | .stop => (m.system.step write .stop).map fun s =>
      { m with system := s, stopping := m.stopping + 1 }
  | .notifyAdd =>
      if m.adding = 0 then none else some { m with adding := m.adding - 1, asleep := false }
  | .notifyStop =>
      if m.stopping = 0 then none else some { m with stopping := m.stopping - 1, asleep := false }
  | .check =>
      if m.asleep then none
      else (m.system.step write .wait).map fun s =>
        { m with system := s, asleep := decide (s.writer.thread_ = .waiting) }
  | .wake => if m.asleep then some { m with asleep := false } else none
  | .write => (m.system.step write .write).map fun s => { m with system := s }
  | .join =>
      if m.system.stops ≤ m.stopping then none
      else (m.system.step write .join).map fun s => { m with system := s }

/-- What an action does to the writer. -/
def Action.shown : Action → Option LogWriterAction
  | .add request => some (.add request)
  | .stop => some .stop
  | .check => some .wait
  | .write => some .write
  | .join => some .join
  | .notifyAdd | .notifyStop | .wake => none

variable {write} {m m' : Monitored σ} {a : Action} {storage : σ} {actions : List Action}

/-- Everything a step can do. -/
inductive Moves (write : σ → LogRequest → Option σ) (m m' : Monitored σ) :
    Action → Prop where
  | added (request : LogRequest) (hs : m.system.step write (.add request) = some m'.system)
      (hadding : m'.adding = if m.system.writer.stopping_ then m.adding else m.adding + 1)
      (hstopping : m'.stopping = m.stopping) (hasleep : m'.asleep = m.asleep) :
      Moves write m m' (.add request)
  | stopped (hs : m.system.step write .stop = some m'.system) (hadding : m'.adding = m.adding)
      (hstopping : m'.stopping = m.stopping + 1) (hasleep : m'.asleep = m.asleep) :
      Moves write m m' .stop
  | notifiedAdd (hpos : 0 < m.adding)
      (hm' : m' = { m with adding := m.adding - 1, asleep := false }) : Moves write m m' .notifyAdd
  | notifiedStop (hpos : 0 < m.stopping)
      (hm' : m' = { m with stopping := m.stopping - 1, asleep := false }) :
      Moves write m m' .notifyStop
  | checked (hawake : m.asleep = false) (hs : m.system.step write .wait = some m'.system)
      (hadding : m'.adding = m.adding) (hstopping : m'.stopping = m.stopping)
      (hasleep : m'.asleep = decide (m'.system.writer.thread_ = .waiting)) : Moves write m m' .check
  | woken (hasleep : m.asleep = true) (hm' : m' = { m with asleep := false }) :
      Moves write m m' .wake
  | wrote (hs : m.system.step write .write = some m'.system)
    (hm' : m' = { m with system := m'.system }) :
      Moves write m m' .write
  | joined (hnotified : m.stopping < m.system.stops)
      (hs : m.system.step write .join = some m'.system)
        (hm' : m' = { m with system := m'.system }) :
      Moves write m m' .join

lemma step_moves (h : m.step write a = some m') : Moves write m m' a := by
  cases a with
  | add request =>
      simp only [step] at h
      obtain ⟨s, hs, rfl⟩ := Option.map_eq_some_iff.mp h
      exact .added request hs rfl rfl rfl
  | stop =>
      simp only [step] at h
      obtain ⟨s, hs, rfl⟩ := Option.map_eq_some_iff.mp h
      exact .stopped hs rfl rfl rfl
  | notifyAdd =>
      simp only [step] at h
      split_ifs at h with hzero
      exact .notifiedAdd (Nat.pos_of_ne_zero hzero) (Option.some.inj h).symm
  | notifyStop =>
      simp only [step] at h
      split_ifs at h with hzero
      exact .notifiedStop (Nat.pos_of_ne_zero hzero) (Option.some.inj h).symm
  | check =>
      simp only [step] at h
      split_ifs at h with hasleep
      obtain ⟨s, hs, rfl⟩ := Option.map_eq_some_iff.mp h
      exact .checked (by simpa using hasleep) hs rfl rfl rfl
  | wake =>
      simp only [step] at h
      split_ifs at h with hasleep
      exact .woken hasleep (Option.some.inj h).symm
  | write =>
      simp only [step] at h
      obtain ⟨s, hs, rfl⟩ := Option.map_eq_some_iff.mp h
      exact .wrote hs rfl
  | join =>
      simp only [step] at h
      split_ifs at h with hle
      obtain ⟨s, hs, rfl⟩ := Option.map_eq_some_iff.mp h
      exact .joined (not_le.mp hle) hs rfl

/-- **Notifications do not change what the writer does.** -/
lemma monitored_refines (hrun : Machine.run (step write) (start storage) actions = some m) :
    Machine.run (LogWriterSystem.step write) (LogWriterSystem.start storage)
      (actions.filterMap Action.shown) = some m.system := by
  have hshown : ∀ (m : Monitored σ) a m', step write m a = some m' →
      a.shown.elim (m'.system = m.system) fun b => m.system.step write b = some m'.system := by
    intro m a m' h
    cases step_moves h with
    | added request hs => exact hs
    | stopped hs => exact hs
    | checked hawake hs => exact hs
    | wrote hs => exact hs
    | joined hnotified hs => exact hs
    | notifiedAdd hpos hm' =>
        subst hm'
        rfl
    | notifiedStop hpos hm' =>
        subst hm'
        rfl
    | woken hasleep hm' =>
        subst hm'
        rfl
  have hstart : (start storage).system = LogWriterSystem.start storage := rfl
  rw [← hstart]
  exact Machine.run_refines hshown hrun

/-! ## No lost wake-up -/

/-- There is something to do for the worker. -/
def Ready (m : Monitored σ) : Prop :=
  m.system.writer.stopping_ = true ∨ m.system.writer.queue_ ≠ []

/-- What the condition variable guarantees. -/
structure Awake (m : Monitored σ) : Prop where
  waiting : m.asleep = true → m.system.writer.thread_ = .waiting
  told : m.asleep = true → m.Ready → 0 < m.adding + m.stopping
  stops : 0 < m.system.stops → m.system.writer.stopping_ = true
  notified : m.stopping ≤ m.system.stops

lemma awake_start (storage : σ) : (start storage).Awake := ⟨nofun, nofun, nofun, le_rfl⟩

/-- The worker goes on waiting only when there is nothing to do. -/
lemma not_ready_of_waiting {s s' : LogWriterSystem σ} (hs : s.step write .wait = some s')
    (hwaiting : s'.writer.thread_ = .waiting) :
    s'.writer.stopping_ = false ∧ s'.writer.queue_ = [] := by
  cases hthread : s.writer.thread_ with
  | waiting =>
      simp only [LogWriterSystem.step, hthread, LogWriter.wait, Option.some.injEq] at hs
      split_ifs at hs with hpred
      · cases hqueue : s.writer.queue_ with
        | nil =>
            simp only [hqueue] at hs
            rw [← hs] at hwaiting
            cases hwaiting
        | cons request queue =>
            simp only [hqueue] at hs
            rw [← hs] at hwaiting
            cases hwaiting
      · rw [← hs]
        simpa using hpred
  | writing request => simp [LogWriterSystem.step, hthread] at hs
  | exited => simp [LogWriterSystem.step, hthread] at hs

/-- Looking at the condition leaves the callers of `stop` alone. -/
lemma stops_of_wait {s s' : LogWriterSystem σ} (hs : s.step write .wait = some s') :
    s'.stops = s.stops ∧ s'.writer.stopping_ = s.writer.stopping_ := by
  cases LogWriterSystem.step_moves hs with
  | idle hs' => rw [hs']; exact ⟨rfl, rfl⟩
  | left hqueue hclosed hwait hs' => rw [hs']; exact ⟨rfl, rfl⟩
  | took request queue hqueue hwait hs' => rw [hs']; exact ⟨rfl, rfl⟩

/-- **One step** of any party. -/
lemma Awake.step (h : m.Awake) (hstep : m.step write a = some m') : m'.Awake := by
  cases step_moves hstep with
  | added request hs hadding hstopping hasleep =>
      cases LogWriterSystem.step_moves hs with
      | accepted _ hopen hs' =>
          rw [hopen] at hadding
          simp only [Bool.false_eq_true, if_false] at hadding
          refine ⟨fun hm => ?_, fun _ _ => by omega, ?_, ?_⟩
          · rw [hs']
            exact h.waiting (hasleep ▸ hm)
          · rw [hs']
            exact h.stops
          · rw [hs', hstopping]
            exact h.notified
      | refused _ hclosed hs' =>
          rw [hclosed, if_pos rfl] at hadding
          refine ⟨fun hm => ?_, fun hm hready => ?_, ?_, ?_⟩
          · rw [hs']
            exact h.waiting (hasleep ▸ hm)
          · rw [Ready, hs'] at hready
            rw [hadding, hstopping]
            exact h.told (hasleep ▸ hm) hready
          · rw [hs']
            exact h.stops
          · rw [hs', hstopping]
            exact h.notified
  | stopped hs hadding hstopping hasleep =>
      cases LogWriterSystem.step_moves hs with
      | stopping hs' =>
          refine ⟨fun hm => ?_, fun _ _ => by omega, fun _ => by rw [hs'], ?_⟩
          · rw [hs']
            exact h.waiting (hasleep ▸ hm)
          · have := h.notified
            rw [hs', hstopping]
            exact Nat.add_le_add_right this 1
  | notifiedAdd hpos hm' =>
      subst hm'
      exact ⟨nofun, nofun, h.stops, h.notified⟩
  | notifiedStop hpos hm' =>
      subst hm'
      exact ⟨nofun, nofun, h.stops, (Nat.sub_le _ _).trans h.notified⟩
  | checked hawake hs hadding hstopping hasleep =>
      -- a worker that goes to sleep has found nothing to do
      obtain ⟨hstops, hflag⟩ := stops_of_wait hs
      refine ⟨fun hm => of_decide_eq_true (hasleep ▸ hm), fun hm hready => ?_, ?_, ?_⟩
      · obtain ⟨hopen, hempty⟩ := not_ready_of_waiting hs (of_decide_eq_true (hasleep ▸ hm))
        rcases hready with hclosed | hne
        · rw [hopen] at hclosed
          cases hclosed
        · exact absurd hempty hne
      · rw [hstops, hflag]
        exact h.stops
      · rw [hstops, hstopping]
        exact h.notified
  | woken hasleep hm' =>
      subst hm'
      exact ⟨nofun, nofun, h.stops, h.notified⟩
  | wrote hs hm' =>
      rw [hm']
      cases LogWriterSystem.step_moves hs with
      | wrote request storage hhand hwrite hs' =>
          have hawake : m.asleep = true → False := fun hm => by
            rw [h.waiting hm] at hhand
            cases hhand
          rw [hs']
          exact ⟨fun hm => (hawake hm).elim, fun hm => (hawake hm).elim, h.stops, h.notified⟩
  | joined hnotified hs hm' =>
      rw [hm']
      cases LogWriterSystem.step_moves hs with
      | joined hexit hs' =>
          rw [hs']
          exact ⟨h.waiting, h.told, fun hpos => h.stops (by omega), by
            have hlt := hnotified
            show m.stopping ≤ m.system.stops - 1
            omega⟩

lemma awake_of_run (hrun : Machine.run (step write) (start storage) actions = some m) : m.Awake :=
  Machine.run_invariant_of_step (fun _ _ _ h hstep => h.step hstep) (awake_start storage) hrun

/-- **No wake-up is lost**, in any interleaving: when the worker sleeps and there is a request in
the queue, or a `stop` has set the flag, then some caller is still to notify it. -/
theorem no_lost_wakeup (hrun : Machine.run (step write) (start storage) actions = some m)
    (hasleep : m.asleep = true) (hready : m.Ready) : 0 < m.adding + m.stopping :=
  (awake_of_run hrun).told hasleep hready

/-- The worker is asleep and a request has come in. -/
theorem no_lost_wakeup_asleep : ∃ m, Machine.run (step fun (_ : Unit) _ => some ()) (start ())
    [.check, .add ⟨[97], 0, [], 7⟩] = some m ∧ m.asleep = true ∧
      0 < m.adding + m.stopping := by
  have hrun : Machine.run (step fun (_ : Unit) _ => some ()) (start ())
      [.check, .add ⟨[97], 0, [], 7⟩] = some ⟨_, true, 1, 0⟩ := rfl
  exact ⟨_, hrun, rfl, no_lost_wakeup hrun rfl (Or.inr (List.cons_ne_nil _ _))⟩

end Monitored

end Tracebox
