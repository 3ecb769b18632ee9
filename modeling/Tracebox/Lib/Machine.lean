import Mathlib

/-!
# Machines and code words

Two small pieces of theory for systems that take step after step.

* A machine is a partial step function.  `run` executes a list of actions, `Throughout` says that
  every step of such a run meets a condition on the state it starts from, and `run_invariant` is
  **the invariant rule**: what holds at the start and is kept by every step that meets the condition
  holds at the end.  `forall_run_iff_throughout` is the rule for **a property that holds exactly as
  long as a condition is met**.
* A prefix-free code can be cut from a stream without looking ahead.  `prefix_of_flatMap_append` is
  **unique decoding in the presence of an incomplete last word**.
-/

namespace Machine

variable {S A : Type*} (step : S → A → Option S)

/-- Executes actions one after the other; no result when one of them is not possible. -/
def run (s : S) : List A → Option S
  | [] => some s
  | a :: as => (step s a).bind fun s' => run s' as

/-- Every step of the run meets the condition. -/
def Throughout (C : S → A → Prop) (s : S) : List A → Prop
  | [] => True
  | a :: as => C s a ∧ match step s a with
    | none => True
    | some s' => Throughout C s' as

instance decidableThroughout (C : S → A → Prop) [∀ s a, Decidable (C s a)] :
    ∀ (as : List A) (s : S), Decidable (Throughout step C s as)
  | [], _ => isTrue trivial
  | a :: as, s =>
      match h : step s a with
      | none => decidable_of_iff (C s a) (by simp [Throughout, h])
      | some s' =>
          have := decidableThroughout C as s'
          decidable_of_iff (C s a ∧ Throughout step C s' as) (by simp [Throughout, h])

variable {step}

lemma run_cons_iff {s s' : S} {a : A} {as : List A} :
    run step s (a :: as) = some s' ↔ ∃ s₁, step s a = some s₁ ∧
      run step s₁ as = some s' := by
  simp [run, Option.bind_eq_some_iff]

lemma run_append_iff {s s' : S} {as bs : List A} :
    run step s (as ++ bs) = some s' ↔ ∃ s₁, run step s as = some s₁ ∧
      run step s₁ bs = some s' := by
  induction as generalizing s with
  | nil => simp [run]
  | cons a as ih =>
      rw [List.cons_append, run_cons_iff]
      simp only [ih, run_cons_iff]
      constructor
      · rintro ⟨s₁, h₁, s₂, h₂, h₃⟩
        exact ⟨s₂, ⟨s₁, h₁, h₂⟩, h₃⟩
      · rintro ⟨s₂, ⟨s₁, h₁, h₂⟩, h₃⟩
        exact ⟨s₁, h₁, s₂, h₂, h₃⟩

lemma throughout_cons_iff {C : S → A → Prop} {s s₁ : S} {a : A} {as : List A}
    (h : step s a = some s₁) :
    Throughout step C s (a :: as) ↔ C s a ∧ Throughout step C s₁ as := by
  simp [Throughout, h]

/-- A condition met throughout a run is met throughout its first part and, from where that ends,
throughout the rest. -/
lemma throughout_append {C : S → A → Prop} {s : S} {as bs : List A}
    (h : Throughout step C s (as ++ bs)) :
    Throughout step C s as ∧ ∀ s', run step s as = some s' → Throughout step C s' bs := by
  induction as generalizing s with
  | nil =>
      refine ⟨trivial, fun s' hs' => ?_⟩
      cases hs'
      exact h
  | cons a as ih =>
      obtain ⟨hnow, hlater⟩ := h
      cases hs : step s a with
      | none =>
          refine ⟨⟨hnow, by rw [hs]; trivial⟩, fun s' hs' => ?_⟩
          simp [run, hs] at hs'
      | some s₁ =>
          rw [hs] at hlater
          obtain ⟨hfirst, hrest⟩ := ih hlater
          refine ⟨(throughout_cons_iff hs).mpr ⟨hnow, hfirst⟩, fun s' hs' => ?_⟩
          obtain ⟨s₂, h₂, hrun⟩ := run_cons_iff.mp hs'
          rw [hs] at h₂
          cases h₂
          exact hrest s' hrun

/-- What holds of every action of a run may be added to a condition. -/
lemma Throughout.and_action {C : S → A → Prop} {P : A → Prop} {s : S} {as : List A}
    (h : Throughout step C s as) (hP : ∀ a ∈ as, P a) :
    Throughout step (fun s a => C s a ∧ P a) s as := by
  induction as generalizing s with
  | nil => exact trivial
  | cons a as ih =>
      refine ⟨⟨h.1, hP a List.mem_cons_self⟩, ?_⟩
      have hlater := h.2
      cases hs : step s a with
      | none => exact trivial
      | some s' =>
          rw [hs] at hlater
          exact ih hlater fun b hb => hP b (List.mem_cons_of_mem a hb)

/-- **The invariant rule.** -/
theorem run_invariant {Inv : S → Prop} {C : S → A → Prop}
    (hstep : ∀ s a s', Inv s → C s a → step s a = some s' → Inv s') {s s' : S} {as : List A}
    (hs : Inv s) (hC : Throughout step C s as) (hrun : run step s as = some s') : Inv s' := by
  induction as generalizing s with
  | nil =>
      cases hrun
      exact hs
  | cons a as ih =>
      obtain ⟨s₁, h₁, hrest⟩ := run_cons_iff.mp hrun
      obtain ⟨hnow, hlater⟩ := (throughout_cons_iff h₁).mp hC
      exact ih (hstep s a s₁ hs hnow h₁) hlater hrest

/-- The invariant rule for steps that need no condition but on their actions. -/
theorem run_invariant_of_mem {Inv : S → Prop} {s s' : S} {as : List A}
    (hstep : ∀ s, ∀ a ∈ as, ∀ s', Inv s → step s a = some s' → Inv s')
    (hs : Inv s) (hrun : run step s as = some s') : Inv s' := by
  induction as generalizing s with
  | nil =>
      cases hrun
      exact hs
  | cons a as ih =>
      obtain ⟨s₁, h₁, hrest⟩ := run_cons_iff.mp hrun
      exact ih (fun s b hb => hstep s b (List.mem_cons_of_mem a hb))
        (hstep s a List.mem_cons_self s₁ hs h₁) hrest

/-- The invariant rule for steps that need no condition. -/
theorem run_invariant_of_step {Inv : S → Prop}
    (hstep : ∀ s a s', Inv s → step s a = some s' → Inv s') {s s' : S} {as : List A}
    (hs : Inv s) (hrun : run step s as = some s') : Inv s' :=
  run_invariant_of_mem (fun s a _ s' => hstep s a s') hs hrun

/-- **The breaking rule**, for a machine whose steps are always possible.  Steps that meet the
condition keep an invariant that implies `P`, and a step that does not meet it leaves a state
without `P`: then `P` holds all along a run exactly when every step meets the condition. -/
theorem forall_run_iff_throughout {Inv P : S → Prop} {C : S → A → Prop}
    (htotal : ∀ s a, ∃ s', step s a = some s') (hP : ∀ s, Inv s → P s) {s : S} (hs : Inv s)
    {as : List A} (hstep : ∀ s, ∀ a ∈ as, ∀ s', Inv s → C s a →
      step s a = some s' → Inv s')
    (hbreak : ∀ s, ∀ a ∈ as, ∀ s', Inv s → ¬ C s a → step s a = some s' → ¬ P s') :
    (∀ done s', done <+: as → run step s done = some s' → P s') ↔
      Throughout step C s as := by
  induction as generalizing s with
  | nil =>
      refine ⟨fun _ => trivial, fun _ done s' hdone hrun => ?_⟩
      rw [List.prefix_nil.mp hdone] at hrun
      cases hrun
      exact hP s hs
  | cons a as ih =>
      obtain ⟨s₁, h₁⟩ := htotal s a
      have hstep' := fun s b hb => hstep s b (List.mem_cons_of_mem a hb)
      have hbreak' := fun s b hb => hbreak s b (List.mem_cons_of_mem a hb)
      rw [throughout_cons_iff h₁]
      constructor
      · intro hall
        have hC : C s a := by
          by_contra hno
          exact hbreak s a List.mem_cons_self s₁ hs hno h₁
            (hall [a] s₁ ⟨as, rfl⟩ (run_cons_iff.mpr ⟨s₁, h₁, rfl⟩))
        have hs₁ := hstep s a List.mem_cons_self s₁ hs hC h₁
        refine ⟨hC, (ih hs₁ hstep' hbreak').mp fun done s' hdone hrun => ?_⟩
        exact hall (a :: done) s' ((List.prefix_cons_inj a).mpr hdone)
          (run_cons_iff.mpr ⟨s₁, h₁, hrun⟩)
      · rintro ⟨hC, hlater⟩ done s' hdone hrun
        have hs₁ := hstep s a List.mem_cons_self s₁ hs hC h₁
        cases done with
        | nil =>
            cases hrun
            exact hP s hs
        | cons b done =>
            obtain ⟨rfl, hrest⟩ := List.cons_prefix_cons.mp hdone
            obtain ⟨s₂, h₂, hrun⟩ := run_cons_iff.mp hrun
            rw [h₁] at h₂
            cases h₂
            exact (ih hs₁ hstep' hbreak').mpr hlater done s' hrest hrun

end Machine

/-! ## Code words -/

/-- On `S`, no code word begins another one; no code word is empty. -/
structure PrefixFree {α β : Type*} (code : α → List β) (S : α → Prop) : Prop where
  ne_nil : ∀ a, code a ≠ []
  eq : ∀ {a b}, S a → S b → code a <+: code b → a = b

namespace PrefixFree

variable {α β : Type*} {code : α → List β} {S : α → Prop}

/-- The first word of a stream. -/
lemma cons (h : PrefixFree code S) {a b : α} {x y : List β} (ha : S a) (hb : S b)
    (heq : code a ++ x = code b ++ y) : a = b ∧ x = y := by
  have hab : a = b := by
    rcases List.prefix_or_prefix_of_prefix (List.prefix_append (code a) x)
      (heq ▸ List.prefix_append (code b) y) with hp | hp
    · exact h.eq ha hb hp
    · exact (h.eq hb ha hp).symm
  subst hab
  exact ⟨rfl, List.append_cancel_left heq⟩

/-- No complete word begins `tail`. -/
def Open (code : α → List β) (S : α → Prop) (tail : List β) : Prop :=
  ∀ a, S a → ¬ code a <+: tail

lemma open_nil (h : PrefixFree code S) : Open code S [] :=
  fun a _ hp => h.ne_nil a (List.prefix_nil.mp hp)

/-- A word that is cut short is open. -/
lemma open_of_prefix (h : PrefixFree code S) {c : α} (hc : S c) {tail : List β}
    (hp : tail <+: code c) (hne : tail ≠ code c) : Open code S tail := by
  intro a ha hat
  obtain rfl := h.eq ha hc (hat.trans hp)
  exact hne (hp.eq_of_length (le_antisymm hp.length_le hat.length_le))

/-- **Unique decoding.**  What is cut off the front of a stream of words is the words the stream was
made of, also when an incomplete word ends it. -/
theorem prefix_of_flatMap_append (h : PrefixFree code S) {xs ys : List α} {rest tail : List β}
    (hx : ∀ a ∈ xs, S a) (hy : ∀ a ∈ ys, S a) (htail : Open code S tail)
    (heq : xs.flatMap code ++ rest = ys.flatMap code ++ tail) : xs <+: ys := by
  induction xs generalizing ys with
  | nil => exact List.nil_prefix
  | cons a xs ih =>
      cases ys with
      | nil =>
          refine absurd ?_ (htail a (hx a List.mem_cons_self))
          rw [List.flatMap_nil, List.nil_append] at heq
          rw [← heq, List.flatMap_cons, List.append_assoc]
          exact List.prefix_append _ _
      | cons b ys =>
          rw [List.flatMap_cons, List.flatMap_cons, List.append_assoc, List.append_assoc] at heq
          obtain ⟨rfl, hrest⟩ := h.cons (hx a List.mem_cons_self) (hy b List.mem_cons_self) heq
          refine (List.prefix_cons_inj a).mpr (ih ?_ ?_ hrest)
          · exact fun c hc => hx c (List.mem_cons_of_mem _ hc)
          · exact fun c hc => hy c (List.mem_cons_of_mem _ hc)

end PrefixFree
