import Mathlib

/-!
# Handles that are taken and released

A handle is taken, used and released; afterwards the same value may be handed out again.  The
history of all handles is **in turn** when every handle is taken and released alternately, and what
is held are the handles taken last.  Then nothing is released twice, and once nothing is held
everything that was taken has been released exactly once.
-/

/-- One entry of a history of handles. -/
inductive Use (α : Type*) where
  | taken (a : α)
  | released (a : α)
  deriving DecidableEq, Repr

namespace Use

variable {α : Type*}

/-- The handle an entry is about. -/
def handle : Use α → α
  | taken a => a
  | released a => a

@[simp] lemma handle_taken (a : α) : (taken a).handle = a := rfl
@[simp] lemma handle_released (a : α) : (released a).handle = a := rfl

variable [DecidableEq α]

/-- Each handle is taken and released in turn, and `held` are those not released since they were
taken. -/
structure InTurn (log : List (Use α)) (held : List α) : Prop where
  nodup : held.Nodup
  turns : ∀ a, ∃ n, log.filter (fun u => u.handle = a) =
    (List.replicate n [taken a, released a]).flatten ++ if a ∈ held then [taken a] else []

namespace InTurn

variable {log : List (Use α)} {held : List α} {a : α}

lemma nil : InTurn ([] : List (Use α)) [] where
  nodup := List.nodup_nil
  turns _ := ⟨0, rfl⟩

/-- A handle that is not held may be taken. -/
lemma take (h : InTurn log held) (ha : a ∉ held) :
    InTurn (log ++ [taken a]) (held ++ [a]) where
  nodup := by
    rw [List.nodup_append_comm]
    exact List.nodup_cons.mpr ⟨ha, h.nodup⟩
  turns b := by
    obtain ⟨n, hn⟩ := h.turns b
    refine ⟨n, ?_⟩
    rw [List.filter_append, hn]
    by_cases hab : a = b
    · subst hab
      simp [ha]
    · simp [hab, Ne.symm hab]

/-- A handle that is held may be released. -/
lemma release (h : InTurn log held) (ha : a ∈ held) :
    InTurn (log ++ [released a]) (held.erase a) where
  nodup := h.nodup.erase a
  turns b := by
    obtain ⟨n, hn⟩ := h.turns b
    rw [List.filter_append, hn]
    by_cases hab : a = b
    · -- the open turn is completed
      subst hab
      refine ⟨n + 1, ?_⟩
      rw [List.replicate_succ', List.flatten_append]
      simp [ha, h.nodup.not_mem_erase]
    · refine ⟨n, ?_⟩
      simp [hab, List.mem_erase_of_ne (Ne.symm hab)]

lemma count_turns (n : ℕ) (u : Use α) :
    (List.replicate n [taken a, released a]).flatten.count u =
    n * [taken a, released a].count u := by
  induction n with
  | zero => simp
  | succ n ih => rw [List.replicate_succ, List.flatten_cons, List.count_append, ih, Nat.succ_mul,
      Nat.add_comm]

/-- **Conservation.**  A handle was released as often as it was taken, but for the turn it is in. -/
theorem count_taken (h : InTurn log held) (a : α) :
    log.count (taken a) = log.count (released a) + if a ∈ held then 1 else 0 := by
  obtain ⟨n, hn⟩ := h.turns a
  have hcount : ∀ u : Use α, u.handle = a →
      log.count u = (log.filter fun u => u.handle = a).count u := by
    intro u hu
    rw [List.count_filter]
    exact decide_eq_true hu
  rw [hcount _ rfl, hcount _ rfl, hn, List.count_append, List.count_append, count_turns,
    count_turns]
  split <;> simp

end InTurn

end Use
