import Tracebox.Lib.Machine

/-!
# Refinement, progress and mutual exclusion

Rules for systems of many parties, whose steps come in any order.

* `run_refines` — **stuttering refinement**: when every step does to a part of the state what an
  action of another machine does, or nothing, every run shows a run of that machine.
* `run_potential` — **accounting**: when every step pays for itself out of a potential, the steps
  of a run are paid for by what was there at its start.
* `Mutex.Exclusive` — **mutual exclusion**: the thread that has the mutex is the only one in a
  section that the mutex guards; `keep`, `lock` and `unlock` are what a step can do to it.
-/

namespace Machine

variable {S T A B : Type*} {step : S → A → Option S} {step' : T → B → Option T}

/-- **Stuttering refinement.** -/
theorem run_refines {view : S → T} {shown : A → Option B}
    (hshown : ∀ s a s', step s a = some s' →
      (shown a).elim (view s' = view s) fun b => step' (view s) b = some (view s'))
    {s s' : S} {as : List A} (hrun : run step s as = some s') :
    run step' (view s) (as.filterMap shown) = some (view s') := by
  induction as generalizing s with
  | nil =>
      cases hrun
      rfl
  | cons a as ih =>
      obtain ⟨s₁, hone, hrest⟩ := run_cons_iff.mp hrun
      have hlater := ih hrest
      have hview := hshown s a s₁ hone
      cases hb : shown a with
      | none =>
          rw [hb] at hview
          rw [List.filterMap_cons_none hb, ← hview]
          exact hlater
      | some b =>
          rw [hb] at hview
          rw [List.filterMap_cons_some hb]
          exact run_cons_iff.mpr ⟨view s₁, hview, hlater⟩

/-- **Accounting.**  There are no more paid steps in a run than what was there at its start pays
for. -/
theorem run_potential {Inv : S → Prop} {potential : S → ℕ} {paid : A → Bool}
    (hinv : ∀ s a s', Inv s → step s a = some s' → Inv s')
    (hstep : ∀ s a s', Inv s → step s a = some s' →
      potential s' + (paid a).toNat ≤ potential s)
    {s s' : S} {as : List A} (hs : Inv s) (hrun : run step s as = some s') :
    as.countP paid ≤ potential s := by
  induction as generalizing s with
  | nil => exact Nat.zero_le _
  | cons a as ih =>
      obtain ⟨s₁, hone, hrest⟩ := run_cons_iff.mp hrun
      have hfirst := hstep s a s₁ hs hone
      have hlater := ih (hinv s a s₁ hs hone) hrest
      have hcount : (a :: as).countP paid = as.countP paid + (paid a).toNat := by
        rw [List.countP_cons]
        cases paid a <;> rfl
      omega

end Machine

namespace Mutex

variable {θ : Type*} {mutex : Option θ} {inside inside' : θ → Bool} {t u : θ}

/-- The thread that has the mutex is the one inside a section that it guards. -/
def Exclusive (mutex : Option θ) (inside : θ → Bool) : Prop :=
  ∀ t, inside t = true ↔ mutex = some t

namespace Exclusive

/-- No two threads are inside. -/
lemma eq (h : Exclusive mutex inside) (ht : inside t = true) (hu : inside u = true) : t = u :=
  Option.some.inj (((h t).mp ht).symm.trans ((h u).mp hu))

/-- A step that no one enters or leaves with. -/
lemma keep (h : Exclusive mutex inside) (hsame : ∀ t, inside' t = inside t) :
    Exclusive mutex inside' := fun t => by
  rw [hsame]
  exact h t

/-- A thread enters, when no one is inside. -/
lemma lock (h : Exclusive none inside) (hin : inside' t = true)
    (hothers : ∀ u, u ≠ t → inside' u = inside u) : Exclusive (some t) inside' := by
  intro u
  by_cases hu : u = t
  · subst hu
    exact iff_of_true hin rfl
  · rw [hothers u hu, h u]
    exact iff_of_false (fun hnone => by cases hnone) fun heq => hu (Option.some.inj heq).symm

/-- The thread that is inside leaves. -/
lemma unlock (h : Exclusive mutex inside) (ht : inside t = true) (hout : inside' t = false)
    (hothers : ∀ u, u ≠ t → inside' u = inside u) : Exclusive none inside' := by
  intro u
  refine iff_of_false (fun hu => ?_) fun hnone => by cases hnone
  by_cases hut : u = t
  · rw [hut, hout] at hu
    cases hu
  · rw [hothers u hut] at hu
    exact hut (h.eq hu ht)

end Exclusive

end Mutex
