import Mathlib

/-!
# Paths, links and tables of paths

A path is read one component at a time.  What a component means depends on what stands at the place
the walk has come to: a directory is entered, a leaf ends the walk, and a link is replaced by its
target, so many times at most.

The theory is about an arbitrary type of names and an arbitrary function `look` that says what
stands at a place; a place is a path that leads through no link.

* `walk` — where a path leads, or why it leads nowhere.
* `walk_append` — **a path is read from left to right**.
* `walk_subset` — **a walk that arrives arrives in every larger table**, and so does one that
  fails for another reason than a missing name.
* `prune` — a table of paths without everything below a path.
-/

namespace Paths

variable {α : Type*}

/-- How a component is read. -/
inductive Reading where
  /-- no entry has a name that long -/
  | tooLong
  /-- the directory itself -/
  | stay
  /-- the directory above -/
  | up
  /-- an entry of the directory -/
  | down
  deriving DecidableEq

/-- What stands at a place. -/
inductive Kind (α : Type*) where
  | dir
  | leaf
  /-- a target that is read from the root or from where the link stands -/
  | link (absolute : Bool) (target : List α)

/-- How a walk ends. -/
inductive Arrival (α : Type*) where
  /-- something stands there -/
  | there (p : List α)
  /-- nothing stands there, but everything on the way does -/
  | free (p : List α)
  /-- something on the way is missing or is no directory -/
  | notFound
  /-- a component is too long, or there are too many links -/
  | failed
  deriving DecidableEq

variable (read : α → Reading) (look : List α → Option (Kind α))

/-- A walk from the directory `cur`, given what happens behind a link. -/
def walkWith (follow : List α → List α → Arrival α) : List α → List α → Arrival α
  | cur, [] => .there cur
  | cur, c :: cs =>
      match read c with
      | .tooLong => .failed
      | .stay => walkWith follow cur cs
      | .up => walkWith follow cur.dropLast cs
      | .down => match look (cur ++ [c]) with
        | some .dir => walkWith follow (cur ++ [c]) cs
        | some .leaf => if cs.isEmpty then .there (cur ++ [c]) else .notFound
        | some (.link absolute target) => follow (if absolute then [] else cur) (target ++ cs)
        | none => if cs.isEmpty then .free (cur ++ [c]) else .notFound

/-- A walk that may go through so many links. -/
def walk : ℕ → List α → List α → Arrival α
  | 0 => walkWith read look fun _ _ => .failed
  | links + 1 => walkWith read look (walk links)

variable {read look}

variable (read look) in
lemma walk_eq_walkWith (links : ℕ) : ∃ follow, walk read look links =
    walkWith read look follow := by
  cases links <;> exact ⟨_, rfl⟩

/-- **A path is read from left to right**: behind a directory the walk goes on from there. -/
lemma walk_append {links : ℕ} {cur q : List α} {cs : List α}
    (h : walk read look links cur cs = .there q) (hq : look q = some .dir) :
    ∃ left ≤ links, ∀ ds, walk read look links cur (cs ++ ds) = walk read look left q ds := by
  have hstep : ∀ links follow, walk read look links = walkWith read look follow →
      (∀ cur cs, follow cur cs = .there q →
        ∃ left ≤ links, ∀ ds, follow cur (cs ++ ds) = walk read look left q ds) →
      ∀ cs cur, walk read look links cur cs = .there q →
        ∃ left ≤ links, ∀ ds, walk read look links cur (cs ++ ds) =
          walk read look left q ds := by
    intro links follow hwalk hfollow cs
    induction cs with
    | nil =>
        intro cur h
        rw [hwalk, walkWith, Arrival.there.injEq] at h
        exact ⟨links, le_rfl, fun ds => by rw [h, List.nil_append]⟩
    | cons c cs ih =>
        intro cur h
        rw [hwalk] at h ih ⊢
        rw [walkWith] at h
        simp only [List.cons_append, walkWith]
        cases hc : read c with
        | tooLong => simp [hc] at h
        | stay =>
            rw [hc] at h
            exact ih cur h
        | up =>
            rw [hc] at h
            exact ih _ h
        | down =>
            rw [hc] at h
            simp only at h ⊢
            cases hlook : look (cur ++ [c]) with
            | none =>
                simp only [hlook] at h
                split_ifs at h
            | some kind =>
                cases kind with
                | dir =>
                    rw [hlook] at h
                    exact ih _ h
                | leaf =>
                    simp only [hlook] at h
                    split_ifs at h
                    cases h
                    rw [hlook] at hq
                    cases hq
                | link absolute target =>
                    rw [hlook] at h
                    simp only [← List.append_assoc]
                    exact hfollow _ _ h
  induction links generalizing cur cs with
  | zero => exact hstep 0 _ rfl (fun _ _ h => by cases h) cs cur h
  | succ links ih =>
      refine hstep (links + 1) _ rfl (fun cur cs h => ?_) cs cur h
      obtain ⟨left, hle, hleft⟩ := ih h
      exact ⟨left, Nat.le_succ_of_le hle, hleft⟩

/-- One table has everything that another one has. -/
def Subset (look look' : List α → Option (Kind α)) : Prop :=
  ∀ p kind, look p = some kind → look' p = some kind

/-- **A walk that arrives arrives in every larger table**, and one that fails for another reason
than a missing name fails there too. -/
lemma walk_subset {look' : List α → Option (Kind α)} (hsub : Subset look look') (links : ℕ)
    {cur cs : List α} {r : Arrival α} (h : walk read look links cur cs = r)
    (hr : r = .failed ∨ ∃ q, r = .there q) : walk read look' links cur cs = r := by
  have hstep : ∀ follow follow' : List α → List α → Arrival α,
      (∀ cur cs, follow cur cs = r → follow' cur cs = r) → ∀ cs cur,
      walkWith read look follow cur cs = r → walkWith read look' follow' cur cs = r := by
    intro follow follow' hfollow cs
    induction cs with
    | nil => exact fun cur h => h
    | cons c cs ih =>
        intro cur h
        rw [walkWith] at h ⊢
        cases hc : read c with
        | tooLong =>
            rw [hc] at h
            exact h
        | stay =>
            rw [hc] at h
            exact ih cur h
        | up =>
            rw [hc] at h
            exact ih _ h
        | down =>
            rw [hc] at h
            simp only at h ⊢
            cases hlook : look (cur ++ [c]) with
            | none =>
                simp only [hlook] at h
                split_ifs at h
                · rcases hr with rfl | ⟨q, rfl⟩ <;> cases h
                · rcases hr with rfl | ⟨q, rfl⟩ <;> cases h
            | some kind =>
                rw [hsub _ _ hlook]
                rw [hlook] at h
                cases kind with
                | dir => exact ih _ h
                | leaf => exact h
                | link absolute target => exact hfollow _ _ h
  induction links generalizing cur cs with
  | zero => exact hstep _ _ (fun _ _ h => h) cs cur h
  | succ links ih => exact hstep _ _ (fun _ _ h => ih h) cs cur h

variable [DecidableEq α] {β : Type*}

/-- The entries of a table that are kept. -/
def keep (t : AList fun _ : List α => β) (kept : List α → Bool) :
    AList fun _ : List α => β where
  entries := t.entries.filter fun e => kept e.1
  nodupKeys := t.nodupKeys.sublist List.filter_sublist

/-- A table without a path and everything below it. -/
def prune (t : AList fun _ : List α => β) (p : List α) : AList fun _ : List α => β :=
  keep t fun q => ! decide (p <+: q)

lemma lookup_keep (t : AList fun _ : List α => β) (kept : List α → Bool) (q : List α) :
    (keep t kept).lookup q = if kept q then t.lookup q else none := by
  ext m
  rw [← Option.mem_def, AList.mem_lookup_iff]
  simp only [keep, List.mem_filter]
  split_ifs with h
  · simp [h, ← AList.mem_lookup_iff]
  · simp [h]

/-- Something was there, so less is left. -/
lemma length_prune_lt {t : AList fun _ : List α => β} {p : List α} {b : β}
    (h : t.lookup p = some b) : (prune t p).entries.length < t.entries.length := by
  rw [prune, keep, List.length_filter_lt_length_iff_exists]
  exact ⟨⟨p, b⟩, AList.mem_lookup_iff.mp h, by simp⟩

/-- The names directly below a path. -/
def names (t : AList fun _ : List α => β) (p : List α) : List α :=
  t.entries.filterMap fun e => if e.1.dropLast = p then e.1.getLast? else none

end Paths
