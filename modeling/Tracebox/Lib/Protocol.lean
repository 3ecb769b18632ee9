import Tracebox.Lib.Machine

/-!
# Objects with a protocol

A system works on many objects, and each of them has a protocol: a machine whose steps are the
events that the object allows.  The log of the system holds the events of all objects.

An observer sees something of every step.  What it sees of a run is the `trace` of the run.

* `Conforms` — what happened to each object is a run of its protocol.
* `Conforms.push`, `Conforms.skip` — one more event.
* `Conforms.balance` — **conservation**: what each step of the protocol conserves is conserved in
  the log.
* `trace_simulates` — **the simulation rule**: a trace is a run of a second machine.
-/

namespace Protocol

variable {κ S E : Type*} [DecidableEq κ]

/-- The events about an object. -/
def history (about : E → Option κ) (log : List E) (k : κ) : List E :=
  log.filter fun e => decide (about e = some k)

/-- The events about each object are a run of its protocol, which has come to `lives`. -/
def Conforms (step : S → E → Option S) (s₀ : S) (about : E → Option κ) (log : List E)
    (lives : κ → S) : Prop :=
  ∀ k, Machine.run step s₀ (history about log k) = some (lives k)

variable {step : S → E → Option S} {s₀ : S} {about : E → Option κ} {log : List E}
  {lives : κ → S}

lemma history_append (log log' : List E) (k : κ) :
    history about (log ++ log') k = history about log k ++ history about log' k :=
  List.filter_append ..

lemma history_singleton {e : E} {k : κ} (h : about e = some k) : history about [e] k = [e] := by
  simp [history, h]

lemma history_singleton_ne {e : E} {k : κ} (h : about e ≠ some k) :
    history about [e] k = [] := by
  simp [history, h]

namespace Conforms

lemma nil (step : S → E → Option S) (s₀ : S) (about : E → Option κ) :
    Conforms step s₀ about [] fun _ => s₀ := fun _ => rfl

/-- **One more event** of an object. -/
lemma push (h : Conforms step s₀ about log lives) {e : E} {k : κ}
    (hk : about e = some k) {s' : S} (hs : step (lives k) e = some s') :
    Conforms step s₀ about (log ++ [e]) (Function.update lives k s') := by
  intro j
  rw [history_append]
  by_cases hj : j = k
  · subst hj
    rw [history_singleton hk, Function.update_self]
    exact Machine.run_append_iff.mpr ⟨lives j, h j, Machine.run_cons_iff.mpr ⟨s', hs, rfl⟩⟩
  · have hne : about e ≠ some j := fun heq => hj (Option.some.inj (heq.symm.trans hk))
    rw [history_singleton_ne hne, List.append_nil, Function.update_of_ne hj]
    exact h j

/-- An event about none of the objects. -/
lemma skip (h : Conforms step s₀ about log lives) {e : E} (he : about e = none) :
    Conforms step s₀ about (log ++ [e]) lives := by
  intro j
  have hne : about e ≠ some j := by simp [he]
  rw [history_append, history_singleton_ne hne, List.append_nil]
  exact h j

/-- **Conservation.**  Every step of the protocol pays for what it gets, from what the state is
worth. -/
theorem balance (h : Conforms step s₀ about log lives) {worth : S → ℕ}
    {gets pays : E → Bool} (hstep : ∀ s e s', step s e = some s' →
      worth s + (gets e).toNat = worth s' + (pays e).toNat) (k : κ) :
    worth s₀ + (history about log k).countP gets =
      worth (lives k) + (history about log k).countP pays := by
  have hcount : ∀ (p : E → Bool) e es, (e :: es).countP p = es.countP p + (p e).toNat := by
    intro p e es
    rw [List.countP_cons]
    cases p e <;> rfl
  have hrun : ∀ (es : List E) (s s' : S), Machine.run step s es = some s' →
      worth s + es.countP gets = worth s' + es.countP pays := by
    intro es
    induction es with
    | nil =>
        intro s s' hs
        cases hs
        rfl
    | cons e es ih =>
        intro s s' hs
        obtain ⟨s₁, hone, hrest⟩ := Machine.run_cons_iff.mp hs
        have hfirst := hstep s e s₁ hone
        have hlater := ih s₁ s' hrest
        rw [hcount, hcount]
        omega
  exact hrun _ _ _ (h k)

end Conforms

/-! ## What is seen of a run -/

section Trace

variable {S A T E F : Type*} {step : S → A → Option S} {out : S → A → S → List E}

/-- What is seen of a run, step by step. -/
def trace (step : S → A → Option S) (out : S → A → S → List E) (s : S) : List A → List E
  | [] => []
  | a :: as => match step s a with
    | none => []
    | some s' => out s a s' ++ trace step out s' as

lemma trace_cons {s s' : S} {a : A} (h : step s a = some s') (as : List A) :
    trace step out s (a :: as) = out s a s' ++ trace step out s' as := by
  simp only [trace, h]

/-- **The simulation rule.**  When what is seen of each step is a run of a second machine that leads
to related states, so is what is seen of a whole run. -/
theorem trace_simulates {spec : T → E → Option T} {R : S → T → Prop} {C : S → A → Prop}
    (hstep : ∀ s t a s', R s t → C s a → step s a = some s' →
      ∃ t', Machine.run spec t (out s a s') = some t' ∧ R s' t')
    {s s' : S} {t : T} {as : List A} (hR : R s t) (hC : Machine.Throughout step C s as)
    (hrun : Machine.run step s as = some s') :
    ∃ t', Machine.run spec t (trace step out s as) = some t' ∧ R s' t' := by
  induction as generalizing s t with
  | nil =>
      cases hrun
      exact ⟨t, rfl, hR⟩
  | cons a as ih =>
      obtain ⟨s₁, hone, hrest⟩ := Machine.run_cons_iff.mp hrun
      obtain ⟨hnow, hlater⟩ := (Machine.throughout_cons_iff hone).mp hC
      obtain ⟨t₁, ht₁, hR₁⟩ := hstep s t a s₁ hR hnow hone
      obtain ⟨t', ht', hR'⟩ := ih hR₁ hlater hrest
      rw [trace_cons hone]
      exact ⟨t', Machine.run_append_iff.mpr ⟨t₁, ht₁, ht'⟩, hR'⟩

/-- The simulation rule for steps that need no condition. -/
theorem trace_simulates_of_step {spec : T → E → Option T} {R : S → T → Prop}
    (hstep : ∀ s t a s', R s t → step s a = some s' →
      ∃ t', Machine.run spec t (out s a s') = some t' ∧ R s' t')
    {s s' : S} {t : T} {as : List A} (hR : R s t) (hrun : Machine.run step s as = some s') :
    ∃ t', Machine.run spec t (trace step out s as) = some t' ∧ R s' t' := by
  have halways : ∀ (as : List A) (s : S), Machine.Throughout step (fun _ _ => True) s as := by
    intro as
    induction as with
    | nil => exact fun _ => trivial
    | cons a as ih =>
        intro s
        cases hs : step s a with
        | none => simp [Machine.Throughout, hs]
        | some s' => exact (Machine.throughout_cons_iff hs).mpr ⟨trivial, ih s'⟩
  exact trace_simulates (fun s t a s' hR _ => hstep s t a s' hR) hR (halways as s) hrun

/-- A record of the system that each step extends by some of what is seen of it. -/
theorem trace_recorded (out : S → A → S → List E) {record : S → List F}
    {select : E → Option F} (hstep : ∀ s a s', step s a = some s' →
      record s' = record s ++ (out s a s').filterMap select)
    {s s' : S} {as : List A} (hrun : Machine.run step s as = some s') :
    record s' = record s ++ (trace step out s as).filterMap select := by
  induction as generalizing s with
  | nil =>
      cases hrun
      simp [trace]
  | cons a as ih =>
      obtain ⟨s₁, hone, hrest⟩ := Machine.run_cons_iff.mp hrun
      rw [ih hrest, hstep s a s₁ hone, trace_cons hone, List.filterMap_append, List.append_assoc]

end Trace

end Protocol
