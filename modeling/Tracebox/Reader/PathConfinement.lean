import Tracebox.Reader.IndexEntries
import Tracebox.Reader.LinkTree
import Tracebox.Reader.StorageScanner

/-!
# What a client can reach through a reader path

`StorageScanner` on a file tree with symbolic links, and a client that chooses the string.

* `resolveIndexPath_refuses` — strings that are refused whatever the tree is.
* `resolveIndexPath_confined` — **what is accepted is a regular index file below the storage
  root**.
-/

namespace Tracebox

open Bytes

namespace StorageScanner

variable {t : LinkTree} {overrun : Path → Bytes} {s : StorageScanner} {file : Bytes}

/-! ## The string -/

/-- A string that does not look like a relative path without `..`. -/
def Hostile (file : Bytes) : Prop :=
  file.head? = some 47 ∨ [46, 46] ∈ splitOn 47 file ∨ 92 ∈ file ∨ 0 ∈ file

instance (file : Bytes) : Decidable (Hostile file) :=
  inferInstanceAs (Decidable (_ ∨ _))

lemma hasRejectedComponent_iff {path : Path} :
    hasRejectedComponent path = true ↔ [46, 46] ∈ path := by
  simp [hasRejectedComponent]

/-- **Refused without a look at the tree.** -/
lemma resolveIndexPath_refuses (v : View)
    (h : Hostile file ∨ extension (filename file) ≠ dotIdx) :
    s.resolveIndexPath v file = none := by
  simp only [resolveIndexPath, hasRejectedComponent_iff]
  by_cases hempty : file = [] ∨ 0 ∈ file ∨ 92 ∈ file
  · rw [if_pos hempty]
  · rw [if_neg hempty, if_pos]
    obtain ⟨-, hnul, hback⟩ : file ≠ [] ∧ 0 ∉ file ∧ 92 ∉ file := by
      simpa using hempty
    rcases h with (h | h | h | h) | h
    · exact Or.inl h
    · exact Or.inr (Or.inl h)
    · exact absurd h hback
    · exact absurd h hnul
    · exact Or.inr (Or.inr h)

/-- What is accepted has passed the tests on the string, and then those on the tree. -/
lemma resolveIndexPath_eq_some_iff {v : View} {p : Path} :
    s.resolveIndexPath v file = some p ↔
      (¬ Hostile file ∧ extension (filename file) = dotIdx) ∧
      v.weakly_canonical (s.folder_ ++ splitOn 47 file) = some p ∧ s.folder_ <+: p ∧
      StreamReader.is_regular_file v p = true ∧ (IndexFileReader.make v p).validIndex = true := by
  by_cases htext : ¬ Hostile file ∧ extension (filename file) = dotIdx
  · obtain ⟨hhostile, hext⟩ := htext
    obtain ⟨hroot, hdots, hback, hnul⟩ : file.head? ≠ some 47 ∧
      [46, 46] ∉ splitOn 47 file ∧
      92 ∉ file ∧ 0 ∉ file := by simpa [Hostile] using hhostile
    have hne : file ≠ [] := by
      rintro rfl
      exact absurd hext (by decide +kernel)
    simp only [resolveIndexPath, hasRejectedComponent_iff, hne, hnul, hback, hroot, hdots, hext,
      hhostile, or_self, ne_eq, not_true_eq_false, if_false, not_false_eq_true, and_self, true_and]
    cases hcanon : v.weakly_canonical (s.folder_ ++ splitOn 47 file) with
    | none => simp
    | some candidate =>
        by_cases hin : ¬ isWithinRoot s.folder_ candidate = true ∨
            ¬ StreamReader.is_regular_file v candidate = true
        · simp only [hin, if_true]
          constructor
          · intro h
            cases h
          · rintro ⟨h, hpre, hreg, -⟩
            cases h
            rcases hin with hin | hin
            · exact absurd (List.isPrefixOf_iff_prefix.mpr hpre) hin
            · exact absurd hreg hin
        · obtain ⟨hpre, hreg⟩ := not_or.mp hin
          rw [not_not] at hpre hreg
          simp only [hin, if_false]
          by_cases hvalid : (IndexFileReader.make v candidate).validIndex = true
          · rw [if_pos hvalid]
            constructor
            · intro h
              cases h
              exact ⟨rfl, List.isPrefixOf_iff_prefix.mp hpre, hreg, hvalid⟩
            · exact fun h => h.1
          · rw [if_neg hvalid]
            constructor
            · intro h
              cases h
            · rintro ⟨h, -, -, hvalid'⟩
              cases h
              exact absurd hvalid' hvalid
  · rw [resolveIndexPath_refuses v (by tauto)]
    simp [htext]

/-! ## The index file -/

/-- The components of a string end with its file name. -/
lemma splitOn_eq_filename (file : Bytes) : ∃ dirs, splitOn 47 file = dirs ++ [filename file] := by
  rcases List.eq_nil_or_concat' (splitOn 47 file) with hnil | ⟨dirs, name, hsplit⟩
  · exact absurd hnil (splitOn_ne_nil 47 file)
  · exact ⟨dirs, by rw [filename, hsplit, List.getLastD_concat]⟩

/-- A file name with an extension stands for something. -/
lemma counts_of_extension {name : Bytes} (h : extension name = dotIdx) :
    LinkTree.counts name = true := by
  rw [LinkTree.counts_iff]
  constructor
  · rintro rfl
    exact absurd h (by decide +kernel)
  · rintro rfl
    exact absurd h (by decide +kernel)

/-- **What is accepted**, in terms of the tree. -/
lemma resolveIndexPath_view_iff {p : Path} :
    s.resolveIndexPath (t.view overrun) file = some p ↔
      (¬ Hostile file ∧ extension (filename file) = dotIdx) ∧
      t.resolve (s.folder_ ++ splitOn 47 file) = .ok p ∧ s.folder_ <+: p ∧
        t.resolve p = .ok p ∧
      ∃ content h, t.node p = some (.file content) ∧ IndexFileReader.IsIndex h content := by
  rw [resolveIndexPath_eq_some_iff]
  constructor
  · rintro ⟨⟨hhostile, hext⟩, hcanon, hroot, hregular, hvalid⟩
    obtain ⟨content, hlook⟩ : ∃ content, (t.view overrun).look p = some (.file content) := by
      rw [StreamReader.is_regular_file] at hregular
      split at hregular
      · exact ⟨_, by assumption⟩
      · cases hregular
    obtain ⟨r, hr, hfile⟩ := LinkTree.look_eq_file_iff.mp hlook
    -- the path that was made canonical ends with the file name and has no `..`
    have hdots : [46, 46] ∉ s.folder_ ++ splitOn 47 file := by
      intro hmem
      rcases List.mem_append.mp hmem with hmem | hmem
      · exact LinkTree.dots_notMem_weakly_canonical hcanon (hroot.subset hmem)
      · exact hhostile (Or.inr (Or.inl hmem))
    obtain ⟨dirs, hsplit⟩ := splitOn_eq_filename file
    obtain ⟨rfl, hres⟩ := LinkTree.weakly_canonical_exists (by rw [hsplit, List.append_assoc])
      (counts_of_extension hext) hdots hcanon hr
    obtain ⟨h, hindex⟩ := (IndexFileReader.validIndex_make_iff hlook).mp hvalid
    exact ⟨⟨hhostile, hext⟩, hres, hroot, hr, content, h, hfile, hindex⟩
  · rintro ⟨htext, hres, hroot, hr, content, h, hfile, hindex⟩
    have hlook : (t.view overrun).look p = some (.file content) :=
      LinkTree.look_eq_file_iff.mpr ⟨p, hr, hfile⟩
    have hcanon : t.weakly_canonical (s.folder_ ++ splitOn 47 file) = some p := by
      rw [LinkTree.weakly_canonical, hres]
    exact ⟨htext, hcanon, hroot, by rw [StreamReader.is_regular_file, hlook],
      (IndexFileReader.validIndex_make_iff hlook).mpr ⟨h, hindex⟩⟩

/-- What is accepted is below the storage root and not the storage root itself. -/
lemma resolveIndexPath_below {p : Path} (h : s.resolveIndexPath (t.view overrun) file = some p) :
    ∃ below, below ≠ [] ∧ p = s.folder_ ++ below := by
  obtain ⟨-, hres, ⟨below, hbelow⟩, -, content, -, hfile, -⟩ :=
    resolveIndexPath_view_iff.mp h
  refine ⟨below, ?_, hbelow.symm⟩
  -- nothing lies below a storage root that is itself a file
  rintro rfl
  rw [List.append_nil] at hbelow
  rw [← hbelow] at hfile
  rcases List.eq_nil_or_concat' s.folder_ with hnil | ⟨dir, name, hfolder⟩
  · rw [hnil] at hfile
    cases hfile
  · have hwalk := LinkTree.walk_of_resolve hres (by simp)
    rw [hfolder] at hfile
    rw [hfolder, List.append_assoc, List.singleton_append, LinkTree.walk_file _ hfile,
      if_neg (splitOn_ne_nil 47 file)] at hwalk
    cases hwalk

/-- **What is accepted is a regular index file below the storage root.**  For every string and every
tree, whatever its links lead to: the path is physical, its components extend those of the storage
root, which is physical too, and it names a file with the header of an index. -/
theorem resolveIndexPath_confined :
    (∀ p, s.resolveIndexPath (t.view overrun) file = some p →
      t.resolve p = .ok p ∧ t.resolve s.folder_ = .ok s.folder_ ∧
      (∃ below, below ≠ [] ∧ p = s.folder_ ++ below) ∧
      ∃ content h, t.node p = some (.file content) ∧ IndexFileReader.IsIndex h content) ∧
    (Hostile file → s.resolveIndexPath (t.view overrun) file = none) := by
  refine ⟨fun p h => ?_, fun h => resolveIndexPath_refuses _ (Or.inl h)⟩
  obtain ⟨below, hne, hbelow⟩ := resolveIndexPath_below h
  obtain ⟨-, -, -, hr, content, hdr, hfile, hindex⟩ := resolveIndexPath_view_iff.mp h
  have hfolder : t.node s.folder_ = some .dir := LinkTree.node_append hne (hbelow ▸ hfile)
  have hlong : ¬ Tree.PATH_MAX ≤ s.folder_.string.length := by
    rw [LinkTree.resolve_node (Or.inr ⟨content, hfile⟩), hbelow] at hr
    split_ifs at hr with hlong
    rw [Path.string, List.flatMap_append, List.length_append] at hlong
    rw [Path.string]
    omega
  refine ⟨hr, ?_, ⟨below, hne, hbelow⟩, content, hdr, hfile, hindex⟩
  rw [LinkTree.resolve_node (Or.inl hfolder), if_neg hlong]

/-- A storage root with one day, in which there is an index without records, beside a directory with
another index to which a link leads. -/
def linkedTree : LinkTree where
  entries := [([ascii "root"], .dir), ([ascii "root", ascii "20240101"], .dir),
    ([ascii "root", ascii "20240101", ascii "a.idx"],
      .file (StreamWriter.header { folder_ := [], name_ := ascii "a" } 1 kIndexFile).encode),
    ([ascii "root", ascii "link.idx"], .link (ascii "../outside/b.idx")),
    ([ascii "outside"], .dir),
    ([ascii "outside", ascii "b.idx"],
      .file (StreamWriter.header { folder_ := [], name_ := ascii "b" } 1 kIndexFile).encode)]
  nodup := by decide +kernel
  named := by decide +kernel

/-- The index is accepted, in a spelling that is not the shortest; the link is not. -/
theorem resolveIndexPath_confined_linked :
    let s : StorageScanner := ⟨[ascii "root"]⟩
    let v := linkedTree.view fun _ => []
    let index : Path := [ascii "root", ascii "20240101", ascii "a.idx"]
    s.resolveIndexPath v (ascii "link.idx") = none ∧
    s.resolveIndexPath v (ascii "../outside/b.idx") = none ∧
    linkedTree.resolve index = .ok index ∧
    ∃ content h, linkedTree.node index = some (.file content) ∧
      IndexFileReader.IsIndex h content := by
  intro s v index
  have hindex : s.resolveIndexPath v (ascii "20240101/.//a.idx") = some index := by decide +kernel
  obtain ⟨hres, -, -, hfile⟩ := resolveIndexPath_confined.1 index hindex
  exact ⟨by decide +kernel, resolveIndexPath_confined.2 (by decide +kernel), hres, hfile⟩

end StorageScanner

end Tracebox
