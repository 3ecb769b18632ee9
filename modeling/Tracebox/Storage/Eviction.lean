import Tracebox.Storage.Budget
import Tracebox.Storage.Confinement
import Tracebox.Storage.Growth

/-!
# The oldest day

`findOldest` reads the names of the subdirectories as numbers and forgets the names; what it found
is spelled again for the deletion.

* `dayOf`, `foldl_oldest` — the number a name is taken for, and the smallest of them.
* `Recognised`, `findOldest_spec` — what `findOldest` finds on a link-free host.
* `bytesOf_remove_all` — what a deletion leaves of the bytes of some of the subdirectories.
* `storage_write_cases` — **a call of `Storage::write` comes to an eviction and perhaps a write to
  the backend**.
-/

namespace Tracebox

open Bytes FilesystemStorageBackend

/-! ## What is recognised -/

/-- The number `findOldest` takes a name for. -/
def dayOf (name : Bytes) : Option ℤ := (stoi name).filter fun day => decide (day < kMaxDay)

lemma dayOf_eq_some_iff {name : Bytes} {day : ℤ} :
    dayOf name = some day ↔ stoi name = some day ∧ day < kMaxDay := by
  rw [dayOf, Option.filter_eq_some_iff, decide_eq_true_eq]

/-- What is read as a number fits an `int`. -/
lemma stoi_bounds {name : Bytes} {day : ℤ} (h : stoi name = some day) :
    -2 ^ 31 ≤ day ∧ day < 2 ^ 31 := by
  simp only [stoi] at h
  split_ifs at h
  all_goals
    cases h
    assumption

lemma dayOf_to_string {name : Bytes} {day : ℤ} (h : dayOf name = some day) :
    dayOf (to_string day) = some day := by
  obtain ⟨hstoi, hlt⟩ := dayOf_eq_some_iff.mp h
  obtain ⟨hlo, hhi⟩ := stoi_bounds hstoi
  exact dayOf_eq_some_iff.mpr ⟨stoi_to_string hlo hhi, hlt⟩

lemma dayOf_toDec {n : ℕ} (h : n < 99999999) : dayOf (toDec n) = some (n : ℤ) :=
  dayOf_eq_some_iff.mpr ⟨stoi_toDec (by omega), by simp only [kMaxDay]; omega⟩

/-- A subdirectory of the storage root that `findOldest` takes for a day. -/
def Recognised (b : FilesystemStorageBackend) (w : World) (name : Bytes) (day : ℤ) : Prop :=
  name ∈ b.dayDirs w ∧ dayOf name = some day

/-- The smallest recognised number. -/
def Oldest (b : FilesystemStorageBackend) (w : World) (day : ℤ) : Prop :=
  (∃ name, Recognised b w name day) ∧ ∀ name day', Recognised b w name day' → day ≤ day'

variable {b : FilesystemStorageBackend} {w : World}

/-- The loop of `findOldest`. -/
lemma foldl_oldest (names : List Bytes) (acc : ℤ) :
    let oldest := names.foldl (fun oldest name => match stoi name with
      | some day => if day < oldest then day else oldest
      | none => oldest) acc
    oldest ≤ acc ∧ (∀ name ∈ names, ∀ day, stoi name = some day → oldest ≤ day) ∧
      (oldest = acc ∨ ∃ name ∈ names, stoi name = some oldest ∧ oldest < acc) := by
  induction names generalizing acc with
  | nil => exact ⟨le_rfl, by simp, Or.inl rfl⟩
  | cons name names ih =>
      rw [List.foldl_cons]
      cases hday : stoi name with
      | none =>
          obtain ⟨h1, h2, h3⟩ := ih acc
          refine ⟨h1, ?_, h3.imp_right fun ⟨n, hn, h⟩ =>
            ⟨n, List.mem_cons_of_mem _ hn, h⟩⟩
          intro n hn day hd
          rcases List.mem_cons.mp hn with rfl | hn
          · rw [hday] at hd
            cases hd
          · exact h2 n hn day hd
      | some day =>
          obtain ⟨h1, h2, h3⟩ := ih (if day < acc then day else acc)
          have hle : (if day < acc then day else acc) ≤ day ∧
              (if day < acc then day else acc) ≤ acc := by
            split_ifs with hlt
            · exact ⟨le_rfl, hlt.le⟩
            · exact ⟨not_lt.mp hlt, le_rfl⟩
          refine ⟨h1.trans hle.2, ?_, ?_⟩
          · intro n hn day' hd
            rcases List.mem_cons.mp hn with rfl | hn
            · rw [hday] at hd
              cases hd
              exact h1.trans hle.1
            · exact h2 n hn day' hd
          · rcases h3 with heq | ⟨n, hn, hd, hlt⟩
            · by_cases hlt : day < acc
              · rw [if_pos hlt] at heq
                refine Or.inr ⟨name, List.mem_cons_self, ?_, ?_⟩
                · simp only [if_pos hlt]
                  rw [heq, hday]
                · simp only [if_pos hlt]
                  rw [heq]
                  exact hlt
              · rw [if_neg hlt] at heq
                left
                simp only [if_neg hlt]
                exact heq
            · exact Or.inr ⟨n, List.mem_cons_of_mem _ hn, hd, lt_of_lt_of_le hlt hle.2⟩

/-- **What `findOldest` finds**: the smallest recognised number, or the bound when there is none. -/
lemma findOldest_spec (b : FilesystemStorageBackend) (w : World) :
    (b.findOldest w = kMaxDay ∧ ∀ name day, ¬ Recognised b w name day) ∨
      (b.findOldest w ≠ kMaxDay ∧ Oldest b w (b.findOldest w)) := by
  obtain ⟨hle, hall, hfound⟩ := foldl_oldest (b.dayDirs w) kMaxDay
  change b.findOldest w ≤ kMaxDay at hle
  change ∀ name ∈ b.dayDirs w, ∀ day, stoi name = some day → b.findOldest w ≤ day at hall
  change b.findOldest w = kMaxDay ∨ ∃ name ∈ b.dayDirs w,
    stoi name = some (b.findOldest w) ∧ b.findOldest w < kMaxDay at hfound
  rcases hfound with heq | ⟨name, hmem, hday, hlt⟩
  · left
    refine ⟨heq, fun name day ⟨hmem, hd⟩ => ?_⟩
    obtain ⟨hstoi, hlt⟩ := dayOf_eq_some_iff.mp hd
    have := hall name hmem day hstoi
    omega
  · right
    refine ⟨hlt.ne, ⟨name, hmem, dayOf_eq_some_iff.mpr ⟨hday, hlt⟩⟩,
      fun name' day' h' => ?_⟩
    exact hall name' h'.1 day' (dayOf_eq_some_iff.mp h'.2).1

/-! ## Bytes of some of the subdirectories -/

/-- The bytes of some of the subdirectories. -/
def bytesOf (b : FilesystemStorageBackend) (w : World) (p : Bytes → Bool) : ℕ :=
  (((b.dayDirs w).filter p).map fun name => dirBytes w (b.folder_path_ ++ [name])).sum

/-- What a deletion leaves of some of the subdirectories and their bytes. -/
lemma bytesOf_remove_all {p : Bytes → Bool} {folder : Bytes}
    (h : folder ∈ (b.dayDirs w).filter p) :
    (b.dayDirs (w.remove_all (b.folder_path_ ++ [folder]))).filter p =
        ((b.dayDirs w).filter p).erase folder ∧
      bytesOf b w p = bytesOf b (w.remove_all (b.folder_path_ ++ [folder])) p +
        dirBytes w (b.folder_path_ ++ [folder]) := by
  have hdirs : (b.dayDirs (w.remove_all (b.folder_path_ ++ [folder]))).filter p =
      ((b.dayDirs w).filter p).erase folder := by
    rw [dayDirs_remove_all, nodup_dayDirs.erase_eq_filter,
      (nodup_dayDirs.filter _).erase_eq_filter, List.filter_filter, List.filter_filter]
    exact List.filter_congr fun name _ => Bool.and_comm _ _
  refine ⟨hdirs, ?_⟩
  have hsame : (((b.dayDirs w).filter p).erase folder).map (fun name =>
        dirBytes (w.remove_all (b.folder_path_ ++ [folder])) (b.folder_path_ ++ [name])) =
      (((b.dayDirs w).filter p).erase folder).map fun name =>
        dirBytes w (b.folder_path_ ++ [name]) := by
    refine List.map_congr_left fun name hname => dirBytes_remove_all ?_
    exact ((nodup_dayDirs.filter _).mem_erase_iff.mp hname).1
  have hperm := (List.perm_cons_erase h).map fun name => dirBytes w (b.folder_path_ ++ [name])
  rw [bytesOf, bytesOf, hdirs, hsame, hperm.sum_eq, List.map_cons, List.sum_cons, Nat.add_comm]

/-! ## What a write comes to -/

variable {host : Host}

lemma Evicts.lookup {need available available' : ℕ} {w' : World} {names : List Bytes}
    (h : Evicts b need available w names available' w') {p : Path} {n : Node}
    (hp : w'.tree.lookup p = some n) : w.tree.lookup p = some n := by
  induction h with
  | stop => exact hp
  | evict hneed hday hdelete hrest ih =>
      obtain ⟨-, -, rfl⟩ := deleteFolder_eq_some hdelete
      have hold := ih hp
      rw [World.tree_remove_all, Tree.lookup_remove_all] at hold
      split_ifs at hold
      exact hold

lemma Evicts.root {need available available' : ℕ} {w' : World} {names : List Bytes}
    (h : Evicts b need available w names available' w')
    (hroot : w.tree.lookup b.folder_path_ = some .dir) :
    w'.tree.lookup b.folder_path_ = some .dir := by
  obtain ⟨-, hkeep⟩ := h.keeps
  rw [hkeep _ fun name _ hp => by simpa using hp.length_le]
  exact hroot

/-- What a call of `Storage::write` comes to: eviction, then perhaps a write to the backend. -/
lemma storage_write_cases (host : Host) (st : Storage) (request : LogRequest) (w : World) :
    ∃ names available w₁, Evicts st.backend_ (maxRecordSize request.data.length)
        st.available_bytes_ w names available w₁ ∧
      (((st.write host request w).2.1.backend_ = st.backend_ ∧
          (st.write host request w).2.2 = w₁ ∧ (st.write host request w).1.positive = false) ∨
        (maxRecordSize request.data.length ≤ available ∧
          st.write host request w = st.writeToBackend host available request w₁)) := by
  obtain ⟨hdone, hfull, hthrown⟩ := makeRoom_evicts st.backend_
    (maxRecordSize request.data.length) (w.tree.entries.length + 1) st.available_bytes_ w
  rw [Storage.write]
  cases hroom : Storage.makeRoom st.backend_ (maxRecordSize request.data.length)
      (w.tree.entries.length + 1) st.available_bytes_ w with
  | done available w₁ =>
      obtain ⟨hneed, names, he⟩ := hdone hroom
      exact ⟨names, available, w₁, he, Or.inr ⟨hneed, rfl⟩⟩
  | full available w₁ =>
      obtain ⟨-, names, he⟩ := hfull hroom
      exact ⟨names, available, w₁, he, Or.inl ⟨rfl, rfl, rfl⟩⟩
  | thrown available w₁ =>
      obtain ⟨names, he⟩ := hthrown hroom
      exact ⟨names, available, w₁, he, Or.inl ⟨rfl, rfl, rfl⟩⟩
  | hangs => exact ⟨[], _, w, .stop _ _, Or.inl ⟨rfl, rfl, rfl⟩⟩

lemma backend_writeToBackend (host : Host) (st : Storage) (available : ℕ) (request : LogRequest)
    (w : World) : (st.writeToBackend host available request w).2.1.backend_ =
      (st.backend_.write host request w).2.1 := by
  simp only [Storage.writeToBackend]
  split <;> rfl

lemma outcome_writeToBackend (host : Host) (st : Storage) (available : ℕ) (request : LogRequest)
    (w : World) : (st.writeToBackend host available request w).1 =
      (st.backend_.write host request w).1 := by
  simp only [Storage.writeToBackend]
  split
  · rename_i hout
    exact hout.symm
  · rfl

lemma folder_path_write (host : Host) (b : FilesystemStorageBackend) (request : LogRequest)
    (w : World) : (b.write host request w).2.1.folder_path_ = b.folder_path_ := by
  simp only [FilesystemStorageBackend.write]
  split <;> rfl

/-! ## Roots of canonical names -/

/-- Every subdirectory is the canonical spelling of a day. -/
def Canonical (b : FilesystemStorageBackend) (w : World) : Prop :=
  ∀ name ∈ b.dayDirs w, ∃ n < 99999999, name = toDec n

/-- The root is there, and its subdirectories are days. -/
structure DayRoot (folder : Path) (b : FilesystemStorageBackend) (w : World) : Prop where
  path : b.folder_path_ = folder
  root : w.tree.lookup folder = some .dir
  canonical : Canonical b w

/-- **A write to the backend keeps the root canonical.** -/
lemma DayRoot.backend_write {folder : Path} (h : DayRoot folder b w) (request : LogRequest) :
    DayRoot folder (b.write host request w).2.1 (b.write host request w).2.2 := by
  obtain ⟨rfl, hroot, hcanon⟩ := h
  have hreach := backend_write_reaches host
    (fun p => p = dayDir host b.folder_path_ request.time_ns) b request w rfl
  refine ⟨folder_path_write host _ _ _, hreach.grows.lookup _ _ hroot, fun name hname => ?_⟩
  rw [mem_dayDirs, folder_path_write] at hname
  rcases hreach.dirs hname with hold | ⟨p, rfl, hpre⟩
  · exact hcanon name (mem_dayDirs.mpr hold)
  · have hday := (host.cal.day_bounds request.time_ns).2
    have heq := hpre.eq_of_length (by simp [dayDir])
    exact ⟨_, hday, by simpa [dayDir] using heq⟩

end Tracebox
