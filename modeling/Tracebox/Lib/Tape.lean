import Mathlib

/-!
# Tapes: interleaved appends to several files

A tape is the sequence of single appends made to a family of append-only files, each tagged with
the file it went to.  What one file holds is its projection; what it held at an earlier moment is
the projection of a beginning of the tape, so a crash or a concurrent reader is a cut of the tape.

* `project` — the content of one file, with its behaviour under concatenation.
* `project_mono` — a file seen earlier is a beginning of the file seen later.
* `perm_flatMap_project` — the files together are the tape: no append is lost, none comes twice.
* `filter_take` — a cut of the whole tape cuts every part of it, later cuts further.
* `length_le_of_project` — **write order is visible in the projections**: if a beginning of the
  tape ends with an append to file `i` and a cut shows all of file `i` up to there, then the cut
  lies behind that beginning, so it shows everything that was appended before.
-/

namespace Tape

variable {ι β : Type*}

/-- A block appended to file `i` as one piece. -/
def tag (i : ι) (bs : List β) : List (ι × β) := bs.map fun b => (i, b)

@[simp] lemma tag_nil (i : ι) : tag i ([] : List β) = [] := rfl

@[simp] lemma length_tag (i : ι) (bs : List β) : (tag i bs).length = bs.length := by
  simp [tag]

lemma tag_append (i : ι) (xs ys : List β) : tag i (xs ++ ys) = tag i xs ++ tag i ys := by
  simp [tag]

variable [DecidableEq ι]

/-- The content of file `i`. -/
def project (i : ι) (tape : List (ι × β)) : List β :=
  tape.filterMap fun e => if e.1 = i then some e.2 else none

@[simp] lemma project_nil (i : ι) : project i ([] : List (ι × β)) = [] := rfl

@[simp] lemma project_append (i : ι) (s t : List (ι × β)) :
    project i (s ++ t) = project i s ++ project i t := by
  simp [project]

@[simp] lemma project_tag_self (i : ι) (bs : List β) : project i (tag i bs) = bs := by
  induction bs with
  | nil => rfl
  | cons b bs ih => simp [project, tag]

lemma project_tag_of_ne {i j : ι} (h : j ≠ i) (bs : List β) : project i (tag j bs) = [] := by
  induction bs with
  | nil => rfl
  | cons b bs ih => simp [project, tag, h]

lemma mem_project {i : ι} {b : β} {tape : List (ι × β)} :
    b ∈ project i tape ↔ (i, b) ∈ tape := by
  rw [project, List.mem_filterMap]
  constructor
  · rintro ⟨⟨j, c⟩, hmem, heq⟩
    split_ifs at heq with hj
    obtain rfl := Option.some.inj heq
    exact hj ▸ hmem
  · exact fun hmem => ⟨(i, b), hmem, if_pos rfl⟩

lemma project_eq_nil {i : ι} {tape : List (ι × β)} (h : ∀ e ∈ tape, e.1 ≠ i) :
    project i tape = [] := by
  rw [project, List.filterMap_eq_nil_iff]
  intro e he
  simp [h e he]

/-- A tape of one file only. -/
lemma project_eq_map {i : ι} {tape : List (ι × β)} (h : ∀ e ∈ tape, e.1 = i) :
    project i tape = tape.map Prod.snd := by
  induction tape with
  | nil => rfl
  | cons e tape ih =>
      have he := h e List.mem_cons_self
      have ht := ih fun x hx => h x (List.mem_cons_of_mem _ hx)
      rw [List.map_cons, ← ht]
      simp [project, he]

/-- A longer tape shows more of every file. -/
lemma project_mono (i : ι) {s t : List (ι × β)} (h : s <+: t) :
    project i s <+: project i t := by
  obtain ⟨u, rfl⟩ := h
  exact ⟨project i u, (project_append i s u).symm⟩

/-- A file is part of the tape. -/
lemma project_sublist (i : ι) (tape : List (ι × β)) :
    (project i tape).Sublist (tape.map Prod.snd) := by
  induction tape with
  | nil => exact List.Sublist.refl _
  | cons e tape ih =>
      rw [project, List.filterMap_cons, List.map_cons]
      split_ifs
      · exact ih.cons_cons e.2
      · exact ih.cons e.2

/-- Other appends of the same files. -/
lemma project_map {γ : Type*} (f : β → γ) (i : ι) (tape : List (ι × β)) :
    project i (tape.map fun e => (e.1, f e.2)) = (project i tape).map f := by
  induction tape with
  | nil => rfl
  | cons e tape ih =>
      by_cases hi : e.1 = i
      · simpa [project, hi] using ih
      · simpa [project, hi] using ih

/-! ## All files of a tape -/

/-- One append is shown as often as its file is looked at. -/
lemma flatMap_ite_eq (i : ι) (b : β) (is : List ι) :
    (is.flatMap fun j => if i = j then [b] else []) = List.replicate (is.count i) b := by
  induction is with
  | nil => rfl
  | cons j is ih =>
      rw [List.flatMap_cons, ih, List.count_cons]
      by_cases hj : i = j
      · subst hj
        simp [List.replicate_succ]
      · have hj' : j ≠ i := fun h => hj h.symm
        simp [hj, hj']

/-- **The files of a tape together are the tape**, as long as every file that was written to is
taken once. -/
lemma perm_flatMap_project {is : List ι} {tape : List (ι × β)}
    (h : ∀ e ∈ tape, is.count e.1 = 1) :
    (is.flatMap fun i => project i tape).Perm (tape.map Prod.snd) := by
  induction tape with
  | nil => simp
  | cons e tape ih =>
      have hsplit : (is.flatMap fun i => project i (e :: tape)) =
          is.flatMap fun i => (if e.1 = i then [e.2] else []) ++ project i tape := by
        refine List.flatMap_congr fun i _ => ?_
        rw [← List.singleton_append, project_append]
        congr 1
        by_cases hi : e.1 = i <;> simp [project, hi]
      have hone : (is.flatMap fun i => if e.1 = i then [e.2] else []) = [e.2] := by
        rw [flatMap_ite_eq, h e List.mem_cons_self, List.replicate_one]
      have hrest := ih fun x hx => h x (List.mem_cons_of_mem _ hx)
      rw [hsplit, List.map_cons]
      refine (List.flatMap_append_perm is _ _).symm.trans ?_
      rw [hone]
      exact hrest.cons e.2

/-! ## Part of a tape -/

/-- Leaving out what belongs to other files does not change a file. -/
lemma project_filter {i : ι} {P : ι × β → Bool} (hP : ∀ b, P (i, b) = true)
    (tape : List (ι × β)) : project i (tape.filter P) = project i tape := by
  induction tape with
  | nil => rfl
  | cons e tape ih =>
      obtain ⟨j, b⟩ := e
      by_cases hj : j = i
      · subst hj
        rw [List.filter_cons_of_pos (hP b)]
        simpa [project] using ih
      · have hout : project i ((j, b) :: tape) = project i tape := by simp [project, hj]
        rw [List.filter_cons, hout, ← ih]
        split_ifs
        · simp [project, hj]
        · rfl

/-- How much of a part of the tape a cut of the whole tape shows. -/
def shown (P : ι × β → Bool) (tape : List (ι × β)) (p : ℕ) : ℕ :=
  ((tape.take p).filter P).length

omit [DecidableEq ι] in
/-- A cut of the whole tape is a cut of the part. -/
lemma filter_take (P : ι × β → Bool) (tape : List (ι × β)) (p : ℕ) :
    (tape.take p).filter P = (tape.filter P).take (shown P tape p) :=
  List.prefix_iff_eq_take.mp ((List.take_prefix p tape).filter P)

omit [DecidableEq ι] in
lemma shown_mono (P : ι × β → Bool) (tape : List (ι × β)) {p q : ℕ} (h : p ≤ q) :
    shown P tape p ≤ shown P tape q :=
  ((List.take_prefix_take_left h).filter P).length_le

/-- **Write order.**  If `s` begins the tape and its last append went to file `i`, a cut that
shows as much of file `i` as `s` does is a cut behind `s`. -/
theorem length_le_of_project {i : ι} {b : β} {s t : List (ι × β)} {p : ℕ}
    (hs : s ++ [(i, b)] <+: t)
    (hp : (project i (s ++ [(i, b)])).length ≤ (project i (t.take p)).length) :
    (s ++ [(i, b)]).length ≤ p := by
  by_contra hlt
  have hlen : p ≤ s.length := by
    rw [List.length_append, List.length_singleton] at hlt
    omega
  -- a cut inside `s` shows less of file `i`: the last append is missing
  have hcut : t.take p = s.take p := by
    obtain ⟨u, rfl⟩ := hs
    rw [List.append_assoc, List.take_append_of_le_length hlen]
  have hle : (project i (s.take p)).length ≤ (project i s).length :=
    (project_mono i (List.take_prefix p s)).length_le
  rw [hcut, project_append, List.length_append] at hp
  have hone : (project i [(i, b)]).length = 1 := by simp [project]
  omega

end Tape
