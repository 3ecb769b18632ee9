import Tracebox.Lib.Machine

/-!
# Archives

An archive keeps items under keys, each of them as often as it was entered and in the order in which
they were.  An operation drops whatever some keys have, and then may enter one item.

* `replay_apply` — **what is left under a key**: what was there at first, unless the key was
  dropped, and the items that were entered after the key was dropped last.
* `replay_of_run` — the refinement rule.  A machine whose every step is one turn of an archive it
  is related to is, after a run, related to the replay of all turns.
-/

/-- The items under each key, in the order in which they came. -/
abbrev Archive (κ α : Type*) := κ → List α

namespace Archive

variable {κ α : Type*}

/-- What one operation does: the keys that lose their items first, and the item that comes. -/
structure Turn (κ α : Type*) where
  dropped : List κ
  entered : Option (κ × α)
  deriving DecidableEq

/-- No operation drops the key. -/
def Spared (k : κ) (ts : List (Turn κ α)) : Prop := ∀ t ∈ ts, k ∉ t.dropped

lemma spared_cons {k : κ} {t : Turn κ α} {ts : List (Turn κ α)} :
    Spared k (t :: ts) ↔ k ∉ t.dropped ∧ Spared k ts := List.forall_mem_cons

variable [DecidableEq κ]

instance (k : κ) (ts : List (Turn κ α)) : Decidable (Spared k ts) :=
  inferInstanceAs (Decidable (∀ t ∈ ts, k ∉ t.dropped))

/-- What the operation enters under a key. -/
def Turn.entry (t : Turn κ α) (k : κ) : List α :=
  match t.entered with
  | some (key, x) => if key = k then [x] else []
  | none => []

/-- The archive without the items of some keys. -/
def without (a : Archive κ α) (ks : List κ) :
    Archive κ α := fun k => if k ∈ ks then [] else a k

lemma without_of_mem (a : Archive κ α) {ks : List κ} {k : κ} (h : k ∈ ks) :
    a.without ks k = [] :=
  if_pos h

lemma without_of_notMem (a : Archive κ α) {ks : List κ} {k : κ} (h : k ∉ ks) :
    a.without ks k = a k := if_neg h

/-- The operation on an archive. -/
def Turn.apply (t : Turn κ α) (a : Archive κ α) : Archive κ α := fun k =>
  a.without t.dropped k ++ t.entry k

lemma Turn.entry_of_none {t : Turn κ α} (h : t.entered = none) (k : κ) : t.entry k = [] := by
  rw [entry, h]

lemma Turn.entry_of_some {t : Turn κ α} {key : κ} {x : α}
    (h : t.entered = some (key, x)) (k : κ) : t.entry k = if key = k then [x] else [] := by
  rw [entry, h]

/-- An operation that enters nothing. -/
lemma Turn.apply_of_none {t : Turn κ α} (h : t.entered = none) (a : Archive κ α) :
    t.apply a = a.without t.dropped := by
  funext k
  rw [apply, entry_of_none h, List.append_nil]

/-- One operation after the other. -/
def replay (a : Archive κ α) (ts : List (Turn κ α)) : Archive κ α :=
  ts.foldl (fun a t => t.apply a) a

@[simp] lemma replay_nil (a : Archive κ α) : replay a [] = a := rfl

@[simp] lemma replay_cons (a : Archive κ α) (t : Turn κ α) (ts : List (Turn κ α)) :
    replay a (t :: ts) = replay (t.apply a) ts := rfl

lemma replay_append (a : Archive κ α) (ts us : List (Turn κ α)) :
    replay a (ts ++ us) = replay (replay a ts) us := List.foldl_append

/-- The items that were entered under a key and not dropped afterwards. -/
def survivors (k : κ) : List (Turn κ α) → List α
  | [] => []
  | t :: ts => (if Spared k ts then t.entry k else []) ++ survivors k ts

/-- **What is left under a key** after any sequence of operations. -/
theorem replay_apply (a : Archive κ α) (ts : List (Turn κ α)) (k : κ) :
    replay a ts k = (if Spared k ts then a k else []) ++ survivors k ts := by
  induction ts generalizing a with
  | nil => simp [Spared, survivors]
  | cons t ts ih =>
      rw [replay_cons, ih, survivors, Turn.apply]
      by_cases hlater : Spared k ts
      · by_cases hnow : k ∈ t.dropped
        · have hcons : ¬ Spared k (t :: ts) := fun h => (spared_cons.mp h).1 hnow
          rw [if_pos hlater, if_pos hlater, without_of_mem a hnow, if_neg hcons, List.nil_append,
            List.nil_append]
        · have hcons : Spared k (t :: ts) := spared_cons.mpr ⟨hnow, hlater⟩
          rw [if_pos hlater, if_pos hlater, without_of_notMem a hnow, if_pos hcons,
            List.append_assoc]
      · have hcons : ¬ Spared k (t :: ts) := fun h => hlater (spared_cons.mp h).2
        rw [if_neg hlater, if_neg hlater, if_neg hcons, List.nil_append, List.nil_append]

/-! ## Machines with an archive -/

variable {S A : Type*} {step : S → A → Option S}

/-- The turns of the actions of a run. -/
def turns (step : S → A → Option S) (turn : S → A → Turn κ α) (s : S) :
    List A → List (Turn κ α)
  | [] => []
  | a :: as => turn s a :: match step s a with
    | none => []
    | some s' => turns step turn s' as

/-- **The refinement rule.**  The invariant may speak of the actions so far, and a step is looked at
only where it stands in the run. -/
theorem replay_of_run (Inv : List A → S → Prop) (Shows : S → Archive κ α → Prop)
    {C : S → A → Prop} {turn : S → A → Turn κ α} {as : List A}
    (hstep : ∀ past a s s' log, past ++ [a] <+: as → Inv past s → Shows s log → C s a →
      step s a = some s' → Inv (past ++ [a]) s' ∧ Shows s' ((turn s a).apply log))
    {s s' : S} {log : Archive κ α} (hstart : Inv [] s) (hshows : Shows s log)
    (hC : Machine.Throughout step C s as) (hrun : Machine.run step s as = some s') :
    Inv as s' ∧ Shows s' (replay log (turns step turn s as)) := by
  -- the rest of the run, from any point of it
  have hrest : ∀ (bs past : List A) (s : S) (log : Archive κ α), past ++ bs = as →
    Inv past s →
      Shows s log → Machine.Throughout step C s bs → Machine.run step s bs = some s' →
        Inv as s' ∧ Shows s' (replay log (turns step turn s bs)) := by
    intro bs
    induction bs with
    | nil =>
        intro past s log heq hinv hshows _ hrun
        cases hrun
        rw [List.append_nil] at heq
        exact ⟨heq ▸ hinv, hshows⟩
    | cons b bs ih =>
        intro past s log heq hinv hshows hC hrun
        obtain ⟨s₁, hone, hrun⟩ := Machine.run_cons_iff.mp hrun
        have heq' : (past ++ [b]) ++ bs = as := by rw [← heq, List.append_assoc]; rfl
        obtain ⟨hcond, hlater⟩ := (Machine.throughout_cons_iff hone).mp hC
        obtain ⟨hinv', hshows'⟩ :=
          hstep past b s s₁ log (heq' ▸ List.prefix_append _ _) hinv hshows hcond hone
        rw [turns, hone, replay_cons]
        exact ih (past ++ [b]) s₁ _ heq' hinv' hshows' hlater hrun
  exact hrest as [] s log rfl hstart hshows hC hrun

end Archive
