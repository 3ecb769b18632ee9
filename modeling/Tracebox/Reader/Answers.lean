import Tracebox.Lib.Archive
import Tracebox.Reader.EndToEnd
import Tracebox.Reader.PayloadConfinement

/-!
# What a client finds, file by file

A client that lists the streams of a range and reads each of them gets an answer that is put
together from the answers of the single index files.  An answer of a file depends on the file and on
the data file beside it, and on nothing else below the root, whatever is in the files.

* `Settled` — a storage root as a file system has it, with any content.
* `foundIn`, `foundAt` — what a client gets from a day directory, and from one entry of it.
* `coe_foundIn` — **a day directory has what its entries have**, `foundAt_congr` — **an entry's
  answer is local**, `foundAt_pair` — a pair that a writer keeps answers with its records.
* `Gains`, `foundIn_gains` — what becomes of a directory when one entry of it changes.
* `Shows` — **the entries of the directories are an archive, dealt out**: all records are there,
  and those of an entry are in the order of the archive.
* `collected_found` — the whole answer, from those of the directories.
-/

namespace Tracebox

open Bytes FilesystemStorageBackend

/-! ## Roots -/

/-- A storage root: its own path is canonical, names below it are names, what is in a directory has
that directory, and `.idx` stands in the path of an index file at its end only. -/
structure Settled (root : Path) (w : World) : Prop where
  dir : w.tree.lookup root = some .dir
  plain : ∀ day name n, w.tree.lookup (root ++ [day] ++ [name]) = some n →
    (root ++ [day] ++ [name]).Plain
  parent : ∀ day name n, w.tree.lookup (root ++ [day] ++ [name]) = some n →
    w.tree.lookup (root ++ [day]) = some .dir
  index : ∀ day name i, w.tree.lookup (root ++ [day] ++ [name]) = some (.file i) →
    extension name = dotIdx → IsIndexPath (root ++ [day] ++ [name])

/-- The number of a day directory is in the range of days. -/
def dayWithin (cal : Calendar) (start end_ : UInt64) (day : Bytes) : Bool :=
  (stoul day).any fun n =>
    decide (cal.Time2YYYYMMDD start ≤ n ∧ n ≤ cal.Time2YYYYMMDD end_)

/-- What a client gets from a day directory: the records in the range of the streams listed there,
stream after stream, each under its stream's name. -/
def foundIn (root : Path) (cal : Calendar) (v : View) (start end_ : UInt64) (day : Bytes) :
    List (Bytes × DataPiece) :=
  ((⟨root⟩ : StorageScanner).streamsOfDay cal v start end_ day).flatMap
    (Legible.labelled root v start end_)

/-- What a client gets from one entry of a day directory. -/
def foundAt (root : Path) (w : World) (overrun : Path → Bytes) (start end_ : UInt64)
    (day name : Bytes) : List (Bytes × DataPiece) :=
  if (w.tree.lookup (root ++ [day] ++ [name])).isSome then
    ((⟨root⟩ : StorageScanner).streamsOfEntry (w.asIs overrun) (root ++ [day]) start end_ 0
      name).flatMap (Legible.labelled root (w.asIs overrun) start end_)
  else []

variable {root : Path} {cal : Calendar} {w w' : World} {overrun : Path → Bytes}
  {start end_ : UInt64} {day name : Bytes}

/-- The number of the directory is not in the records. -/
lemma labelled_streamOf (s : StorageScanner) (v : View) (start end_ : UInt64) (n m : UInt32)
    (identifier : Bytes) :
    (s.streamOf v start end_ n identifier).flatMap (Legible.labelled root v start end_) =
      (s.streamOf v start end_ m identifier).flatMap (Legible.labelled root v start end_) := by
  simp only [StorageScanner.streamOf]
  cases s.resolveIndexPath v identifier with
  | none => rfl
  | some p =>
      dsimp only
      split_ifs
      · rfl
      · rfl

/-- Nor is it in the records of an entry. -/
lemma labelled_streamsOfEntry (s : StorageScanner) (v : View) (path : Path) (start end_ : UInt64)
    (n m : UInt32) (name : Bytes) :
    (s.streamsOfEntry v path start end_ n name).flatMap (Legible.labelled root v start end_) =
      (s.streamsOfEntry v path start end_ m name).flatMap (Legible.labelled root v start end_) := by
  simp only [StorageScanner.streamsOfEntry]
  split_ifs
  · cases s.streamIdentifier v (path ++ [name]) with
    | none => rfl
    | some identifier => exact labelled_streamOf s v start end_ n m identifier
  · rfl

/-! ## Directories and entries -/

lemma look_eq_none_iff {q : Path} :
    (w.asIs overrun).look q = none ↔ w.tree.lookup q = none := by
  simp only [World.view]
  cases w.tree.lookup q with
  | none => simp
  | some n => cases n <;> simp

/-- What is listed for a directory that is not there. -/
lemma foundIn_of_not_dir (h : w.tree.lookup (root ++ [day]) ≠ some .dir) :
    foundIn root cal (w.asIs overrun) start end_ day = [] := by
  have hlook : (w.asIs overrun).look (root ++ [day]) ≠ some .dir := by
    simp only [World.view]
    split
    · exact absurd ‹_› h
    · simp
    · simp
  rw [foundIn, StorageScanner.streamsOfDay, if_neg hlook]
  rfl

/-- A sum over the entries of a list without repetitions. -/
lemma coe_flatMap_eq_sum {α β : Type*} [DecidableEq α] {l : List α} (hl : l.Nodup)
    (f : α → List β) : (↑(l.flatMap f) : Multiset β) =
      ∑ x ∈ l.toFinset, (↑(f x) : Multiset β) := by
  rw [List.sum_toFinset _ hl]
  clear hl
  induction l with
  | nil => rfl
  | cons x l ih =>
      rw [List.flatMap_cons, List.map_cons, List.sum_cons, ← ih]
      rfl

/-- A directory in the range is listed entry by entry. -/
lemma foundIn_eq_flatMap (cal : Calendar) (overrun : Path → Bytes) (start end_ : UInt64)
    (hdir : w.tree.lookup (root ++ [day]) = some .dir) :
    foundIn root cal (w.asIs overrun) start end_ day =
      if dayWithin cal start end_ day then
        ((w.tree.children (root ++ [day])).map Prod.fst).flatMap
          (foundAt root w overrun start end_ day)
      else [] := by
  have hlook : (w.asIs overrun).look (root ++ [day]) = some .dir := by
    simp only [World.view, hdir]
  rw [foundIn, StorageScanner.streamsOfDay, if_pos hlook, dayWithin]
  cases stoul day with
  | none => rfl
  | some n =>
      rw [Option.any_some]
      by_cases hrange : cal.Time2YYYYMMDD start ≤ n ∧ n ≤ cal.Time2YYYYMMDD end_
      · rw [if_pos (decide_eq_true hrange)]
        dsimp only
        rw [if_pos hrange, StorageScanner.extractStreams_eq start end_ _ fun c _ => by
          simp [StorageScanner.streamIdentifier, World.view], List.flatMap_assoc]
        refine List.flatMap_congr fun c hc => ?_
        obtain ⟨⟨d, n'⟩, hmem, rfl⟩ := List.mem_map.mp hc
        have hthere : (w.tree.lookup (root ++ [day] ++ [d])).isSome = true := by
          rw [Tree.mem_children.mp hmem]
          rfl
        rw [foundAt, if_pos hthere]
        exact labelled_streamsOfEntry _ _ _ _ _ _ _ _
      · rw [if_neg fun h => hrange (of_decide_eq_true h)]
        dsimp only
        rw [if_neg hrange]
        rfl

/-- **A day directory has what its entries have.**  The entries may be counted with others that are
not there. -/
lemma coe_foundIn (hw : Settled root w) (cal : Calendar) (overrun : Path → Bytes)
    (start end_ : UInt64) (names : Finset Bytes)
    (hnames : ∀ name n, w.tree.lookup (root ++ [day] ++ [name]) = some n → name ∈ names) :
    (↑(foundIn root cal (w.asIs overrun) start end_ day) : Multiset (Bytes × DataPiece)) =
      if dayWithin cal start end_ day then
        ∑ name ∈ names, (↑(foundAt root w overrun start end_ day name) : Multiset _)
      else 0 := by
  have hnone : ∀ name, w.tree.lookup (root ++ [day] ++ [name]) = none →
      foundAt root w overrun start end_ day name = [] := fun name hname => by
    rw [foundAt, hname]
    rfl
  by_cases hdir : w.tree.lookup (root ++ [day]) = some .dir
  · rw [foundIn_eq_flatMap cal overrun start end_ hdir]
    split_ifs with hrange
    · rw [coe_flatMap_eq_sum (w.tree.nodup_children _)]
      refine Finset.sum_subset (fun name hname => ?_) fun name _ hname => ?_
      · obtain ⟨⟨c, n⟩, hc, rfl⟩ := List.mem_map.mp (List.mem_toFinset.mp hname)
        exact hnames c n (Tree.mem_children.mp hc)
      · rw [hnone name, Multiset.coe_nil]
        by_contra hsome
        obtain ⟨n, hn⟩ := Option.ne_none_iff_exists'.mp hsome
        exact hname (List.mem_toFinset.mpr
          (List.mem_map.mpr ⟨(name, n), Tree.mem_children.mpr hn, rfl⟩))
    · rfl
  · rw [foundIn_of_not_dir hdir]
    have hempty : ∀ name ∈ names,
        (↑(foundAt root w overrun start end_ day name) : Multiset (Bytes × DataPiece)) = 0 := by
      intro name _
      rw [hnone name, Multiset.coe_nil]
      by_contra hsome
      obtain ⟨n, hn⟩ := Option.ne_none_iff_exists'.mp hsome
      exact hdir (hw.parent day name n hn)
    rw [Finset.sum_eq_zero hempty, ite_self]
    rfl

/-- What an entry has is found in its directory, in the same order. -/
lemma foundAt_sublist (hw : Settled root w) (cal : Calendar) (overrun : Path → Bytes)
    (hrange : dayWithin cal start end_ day = true) (name : Bytes) :
    (foundAt root w overrun start end_ day name).Sublist
      (foundIn root cal (w.asIs overrun) start end_ day) := by
  cases hn : w.tree.lookup (root ++ [day] ++ [name]) with
  | none =>
      rw [foundAt, hn]
      exact List.nil_sublist _
  | some n =>
      rw [foundIn_eq_flatMap cal overrun start end_ (hw.parent day name n hn), if_pos hrange,
        List.flatMap_def]
      exact List.sublist_flatten_of_mem (List.mem_map_of_mem
        (List.mem_map.mpr ⟨(name, n), Tree.mem_children.mpr hn, rfl⟩))

/-- The names in a day directory. -/
def namesIn (root : Path) (w : World) (day : Bytes) : Finset Bytes :=
  ((w.tree.children (root ++ [day])).map Prod.fst).toFinset

lemma mem_namesIn {n : Node} (h : w.tree.lookup (root ++ [day] ++ [name]) = some n) :
    name ∈ namesIn root w day :=
  List.mem_toFinset.mpr (List.mem_map.mpr ⟨(name, n), Tree.mem_children.mpr h, rfl⟩)

/-- A directory has what it had if its entries have. -/
lemma foundIn_congr (hw : Settled root w) (hw' : Settled root w')
    (h : ∀ name, foundAt root w' overrun start end_ day name =
      foundAt root w overrun start end_ day name) :
    (foundIn root cal (w'.asIs overrun) start end_ day).Perm
      (foundIn root cal (w.asIs overrun) start end_ day) := by
  rw [← Multiset.coe_eq_coe,
    coe_foundIn hw cal overrun start end_ (namesIn root w day ∪ namesIn root w' day) fun _ _ hn =>
      Finset.mem_union_left _ (mem_namesIn hn),
    coe_foundIn hw' cal overrun start end_ (namesIn root w day ∪ namesIn root w' day)
      fun _ _ hn =>
      Finset.mem_union_right _ (mem_namesIn hn),
    Finset.sum_congr rfl fun name _ => congrArg _ (h name)]

/-- One entry has more than before, and all others have what they had. -/
def Gains (root : Path) (overrun : Path → Bytes) (start end_ : UInt64) (w w' : World)
    (day x : Bytes) (m : List (Bytes × DataPiece)) : Prop :=
  ∀ d name, foundAt root w' overrun start end_ d name =
    foundAt root w overrun start end_ d name ++ if d = day ∧ name = x then m else []

/-- Nothing has changed. -/
lemma gains_nil (h : ∀ d name, foundAt root w' overrun start end_ d name =
    foundAt root w overrun start end_ d name) (day x : Bytes) :
    Gains root overrun start end_ w w' day x [] := fun d name => by
  rw [h, ite_self, List.append_nil]

/-- **What one entry gains is found in its directory.** -/
lemma foundIn_gains (hw : Settled root w) (hw' : Settled root w') {x : Bytes}
    {m : List (Bytes × DataPiece)} (h : Gains root overrun start end_ w w' day x m)
    (hrange : m ≠ [] → dayWithin cal start end_ day = true) (d : Bytes) :
    (foundIn root cal (w'.asIs overrun) start end_ d).Perm
      (foundIn root cal (w.asIs overrun) start end_ d ++ if d = day then m else []) := by
  obtain ⟨names, hnames⟩ : ∃ names, names =
    insert x (namesIn root w d ∪ namesIn root w' d) :=
    ⟨_, rfl⟩
  have hx : x ∈ names := hnames ▸ Finset.mem_insert_self _ _
  rw [← Multiset.coe_eq_coe, ← Multiset.coe_add,
    coe_foundIn hw cal overrun start end_ names fun name n hn => by
      rw [hnames]
      exact Finset.mem_insert_of_mem (Finset.mem_union_left _ (mem_namesIn hn)),
    coe_foundIn hw' cal overrun start end_ names fun name n hn => by
      rw [hnames]
      exact Finset.mem_insert_of_mem (Finset.mem_union_right _ (mem_namesIn hn))]
  have hentry : ∀ name,
      (↑(foundAt root w' overrun start end_ d name) : Multiset (Bytes × DataPiece)) =
        (↑(foundAt root w overrun start end_ d name) : Multiset (Bytes × DataPiece)) +
          if name = x then (↑(if d = day then m else []) : Multiset (Bytes × DataPiece))
            else 0 := by
    intro name
    rw [h d name, ← Multiset.coe_add]
    by_cases hname : name = x <;> simp [hname]
  split_ifs with hin hd hd
  · rw [Finset.sum_congr rfl fun name _ => hentry name, Finset.sum_add_distrib,
      Finset.sum_ite_eq' names x fun _ => _, if_pos hx, if_pos hd]
  · rw [Finset.sum_congr rfl fun name _ => hentry name, Finset.sum_add_distrib,
      Finset.sum_ite_eq' names x fun _ => _, if_pos hx, if_neg hd]
  · by_cases hm : m = []
    · rw [hm]
      rfl
    · exact absurd (hd ▸ hrange hm) hin
  · rfl

/-! ## Archives -/

/-- **The entries of the directories are an archive, dealt out**: what a client finds in a directory
are the records of its day, each as often as it was entered, and what it finds in one entry is in
their order. -/
structure Shows (root : Path) (cal : Calendar) (overrun : Path → Bytes) (start end_ : UInt64)
    (w : World) (log : Archive Bytes (Bytes × DataPiece)) : Prop where
  all : ∀ day, (foundIn root cal (w.asIs overrun) start end_ day).Perm (log day)
  each : ∀ day name, dayWithin cal start end_ day = true →
    (foundAt root w overrun start end_ day name).Sublist (log day)

/-- The archive that is there at first: whatever a client finds. -/
lemma shows_self (hw : Settled root w) (cal : Calendar) (overrun : Path → Bytes)
    (start end_ : UInt64) :
    Shows root cal overrun start end_ w (foundIn root cal (w.asIs overrun) start end_) where
  all _ := List.Perm.refl _
  each _ name hrange := foundAt_sublist hw cal overrun hrange name

namespace Shows

variable {log : Archive Bytes (Bytes × DataPiece)}

/-- **One entry gains** what is entered last. -/
lemma gains (h : Shows root cal overrun start end_ w log) (hw : Settled root w)
    (hw' : Settled root w') {x : Bytes} {m : List (Bytes × DataPiece)}
    (hgains : Gains root overrun start end_ w w' day x m)
    (hrange : m ≠ [] → dayWithin cal start end_ day = true) :
    Shows root cal overrun start end_ w' fun d => log d ++ if d = day then m else [] where
  all d := (foundIn_gains hw hw' hgains hrange d).trans ((h.all d).append_right _)
  each d name hd := by
    rw [hgains d name]
    refine (h.each d name hd).append ?_
    by_cases hday : d = day
    · by_cases hname : name = x
      · rw [if_pos ⟨hday, hname⟩, if_pos hday]
      · rw [if_neg fun hc => hname hc.2]
        exact List.nil_sublist _
    · rw [if_neg fun hc => hday hc.1]
      exact List.nil_sublist _

/-- **Whole directories go**, and in the others the entries have what they had. -/
lemma drops (h : Shows root cal overrun start end_ w log) (hw : Settled root w)
    (hw' : Settled root w') {days : List Bytes}
    (hgone : ∀ d ∈ days, w'.tree.lookup (root ++ [d]) ≠ some .dir)
    (hkept : ∀ d, d ∉ days → ∀ name, foundAt root w' overrun start end_ d name =
      foundAt root w overrun start end_ d name) :
    Shows root cal overrun start end_ w' (log.without days) where
  all d := by
    by_cases hd : d ∈ days
    · rw [log.without_of_mem hd, foundIn_of_not_dir (hgone d hd)]
    · rw [log.without_of_notMem hd]
      exact (foundIn_congr hw hw' (hkept d hd)).trans (h.all d)
  each d name hrange := by
    by_cases hd : d ∈ days
    · have hnone : w'.tree.lookup (root ++ [d] ++ [name]) = none := by
        by_contra hsome
        obtain ⟨n, hn⟩ := Option.ne_none_iff_exists'.mp hsome
        exact hgone d hd (hw'.parent d name n hn)
      rw [foundAt, hnone]
      exact List.nil_sublist _
    · rw [log.without_of_notMem hd, hkept d hd name]
      exact h.each d name hrange

/-- The entries have what they had. -/
lemma congr (h : Shows root cal overrun start end_ w log) (hw : Settled root w)
    (hw' : Settled root w') (hsame : ∀ d name, foundAt root w' overrun start end_ d name =
      foundAt root w overrun start end_ d name) : Shows root cal overrun start end_ w' log where
  all d := (foundIn_congr hw hw' (hsame d)).trans (h.all d)
  each d name hrange := by
    rw [hsame]
    exact h.each d name hrange

end Shows

/-! ## Entries -/

/-- An index file's name. -/
lemma exists_leaf (h : extension name = dotIdx) : ∃ leaf, name = leaf ++ dotIdx := by
  obtain ⟨leaf, hleaf⟩ := extension_suffix name
  exact ⟨leaf, by rw [← hleaf, h]⟩

/-- Entries that are no index files have nothing. -/
lemma foundAt_of_extension (h : extension name ≠ dotIdx) :
    foundAt root w overrun start end_ day name = [] := by
  have hnil : ∀ v : View, (⟨root⟩ : StorageScanner).streamsOfEntry v
    (root ++ [day]) start end_ 0
      name = [] := fun v => if_neg fun hentry => h hentry.2
  rw [foundAt, hnil]
  exact ite_self _

lemma foundAt_of_none (h : w.tree.lookup (root ++ [day] ++ [name]) = none) :
    foundAt root w overrun start end_ day name = [] := by
  rw [foundAt, h]
  rfl

/-- The identifier of an entry, and what it is resolved to. -/
lemma identifier_of_plain (overrun : Path → Bytes) (hq : (root ++ [day] ++ [name]).Plain) :
    ∃ identifier, (∀ w : World, (⟨root⟩ : StorageScanner).streamIdentifier (w.asIs overrun)
        (root ++ [day] ++ [name]) = some identifier) ∧
      ∀ (w : World) p, (⟨root⟩ : StorageScanner).resolveIndexPath
        (w.asIs overrun) identifier = some p → p = root ++ [day] ++ [name] := by
  have hroot : root.Plain := fun c hc => hq c (by simp [hc])
  have hbelow : Path.Plain [day, name] := fun c hc => hq c (by
    rcases List.mem_pair.mp hc with rfl | rfl <;> simp)
  have hpath : root ++ [day] ++ [name] = root ++ [day, name] := by simp
  refine ⟨generic_string [day, name], fun w => ?_, fun w p hp => ?_⟩
  · have hid : (⟨root⟩ : StorageScanner).streamIdentifier (w.asIs overrun)
      (root ++ [day] ++ [name]) =
        some (generic_string (lexically_relative (root ++ [day] ++ [name]) root)) := by
      simp only [StorageScanner.streamIdentifier, World.view, hroot.normalize, hq.normalize]
      rfl
    rw [hid, hpath, lexically_relative_below root (List.cons_ne_nil day [name])]
  · obtain ⟨-, hcanon, -⟩ := StorageScanner.resolveIndexPath_eq_some_iff.mp hp
    rw [splitOn_generic_string (List.cons_ne_nil _ _) fun c hc => (hbelow c hc).2.1, ← hpath]
      at hcanon
    simp only [World.view, hq.normalize, Option.some.injEq] at hcanon
    exact hcanon.symm

/-- Whether an identifier is accepted depends on what is at the path. -/
lemma resolveIndexPath_congr {v v' : View} {identifier : Bytes} {q : Path}
    (hlook : v'.look q = v.look q) (hover : v'.overrun = v.overrun)
    (hcanon : v'.weakly_canonical = v.weakly_canonical)
    (h : (⟨root⟩ : StorageScanner).resolveIndexPath v identifier = some q) :
    (⟨root⟩ : StorageScanner).resolveIndexPath v' identifier = some q := by
  obtain ⟨htext, hpath, hpre, hregular, hvalid⟩ :=
    StorageScanner.resolveIndexPath_eq_some_iff.mp h
  refine StorageScanner.resolveIndexPath_eq_some_iff.mpr
    ⟨htext, by rw [hcanon, hpath], hpre, ?_, ?_⟩
  · rw [StreamReader.is_regular_file, hlook]
    exact hregular
  · rw [IndexFileReader.make_congr hlook (by rw [hover])]
    exact hvalid

/-- A reader looks at two files. -/
lemma make_congr_beside {v v' : View} {dir : Path} {leaf : Bytes} (hover : v'.overrun = v.overrun)
    (hlook : v'.look (StreamWriter.indexPath dir leaf) = v.look (StreamWriter.indexPath dir leaf))
    (hindex : IsIndexPath (StreamWriter.indexPath dir leaf))
    (hdata : v'.look (StreamWriter.dataPath dir leaf) = v.look (StreamWriter.dataPath dir leaf)) :
    StreamReader.make v' (StreamWriter.indexPath dir leaf) =
      StreamReader.make v (StreamWriter.indexPath dir leaf) := by
  have hpair := besideIndex_indexPath hindex
  refine StreamReader.make_congr hover hlook fun ext_pos hfind => ?_
  rw [hindex.only] at hfind
  have hpos := Option.some.inj hfind
  have hbeside : StreamReader.dataPath (StreamWriter.indexPath dir leaf) ext_pos =
      StreamWriter.dataPath dir leaf := by
    rw [← hpair, ← hpos]
    rfl
  rw [hbeside, hdata]

/-- What is listed under an identifier depends on the reader of its file. -/
lemma labelled_streamOf_congr {v v' : View} {identifier : Bytes} {q : Path}
    (hresolve : (⟨root⟩ : StorageScanner).resolveIndexPath v' identifier =
      (⟨root⟩ : StorageScanner).resolveIndexPath v identifier)
    (honly : ∀ p, (⟨root⟩ : StorageScanner).resolveIndexPath v identifier = some p → p = q)
    (hreader : StreamReader.make v' q = StreamReader.make v q) (n : UInt32) :
    ((⟨root⟩ : StorageScanner).streamOf v' start end_ n identifier).flatMap
        (Legible.labelled root v' start end_) =
      ((⟨root⟩ : StorageScanner).streamOf v start end_ n identifier).flatMap
        (Legible.labelled root v start end_) := by
  cases hres : (⟨root⟩ : StorageScanner).resolveIndexPath v identifier with
  | none =>
      have hres' := hresolve.trans hres
      simp only [StorageScanner.streamOf, hres, hres', List.flatMap_nil]
  | some p =>
      obtain rfl := honly p hres
      have hres' := hresolve.trans hres
      simp only [StorageScanner.streamOf, hres, hres', hreader]
      split_ifs
      · simp only [List.flatMap_singleton, Legible.labelled, StorageScanner.describe,
          StorageScanner.getData_of_some hres, StorageScanner.getData_of_some hres', hreader]
      · rfl

/-- **An entry's answer is local**: it depends on what is at its path and beside it. -/
lemma foundAt_congr (hw : Settled root w)
    (hlook : (w'.asIs overrun).look (root ++ [day] ++ [name]) =
      (w.asIs overrun).look (root ++ [day] ++ [name]))
    (hdata : ∀ leaf, name = leaf ++ dotIdx →
      (w'.asIs overrun).look (root ++ [day] ++ [leaf ++ dotData]) =
        (w.asIs overrun).look (root ++ [day] ++ [leaf ++ dotData])) :
    foundAt root w' overrun start end_ day name = foundAt root w overrun start end_ day name := by
  by_cases hext : extension name = dotIdx
  · cases hn : w.tree.lookup (root ++ [day] ++ [name]) with
    | none =>
        have hn' : w'.tree.lookup (root ++ [day] ++ [name]) = none := by
          exact look_eq_none_iff.mp (hlook.trans (look_eq_none_iff.mpr hn))
        rw [foundAt_of_none hn, foundAt_of_none hn']
    | some n =>
        have hsome : (w'.tree.lookup (root ++ [day] ++ [name])).isSome = true := by
          rw [Option.isSome_iff_ne_none]
          intro hn'
          rw [look_eq_none_iff.mp (hlook.symm.trans (look_eq_none_iff.mpr hn'))] at hn
          cases hn
        rw [foundAt, foundAt, if_pos hsome, hn, Option.isSome_some, if_pos rfl]
        rw [StorageScanner.streamsOfEntry, StorageScanner.streamsOfEntry, hlook]
        cases n with
        | dir =>
            have hdir : (w.asIs overrun).look (root ++ [day] ++ [name]) = some .dir := by
              simp only [World.view, hn]
            rw [if_neg fun h => h.1 hdir, if_neg fun h => h.1 hdir]
            rfl
        | file i =>
            obtain ⟨leaf, rfl⟩ := exists_leaf hext
            obtain ⟨identifier, hid, honly⟩ := identifier_of_plain overrun
              (hw.plain day _ _ hn)
            -- the two worlds look the same from this file
            have hresolve : (⟨root⟩ : StorageScanner).resolveIndexPath (w'.asIs overrun)
                identifier =
                (⟨root⟩ : StorageScanner).resolveIndexPath (w.asIs overrun) identifier := by
              refine Option.ext fun p => ⟨fun hp => ?_, fun hp => ?_⟩
              · obtain rfl := honly w' p hp
                exact resolveIndexPath_congr hlook.symm rfl rfl hp
              · obtain rfl := honly w p hp
                exact resolveIndexPath_congr hlook rfl rfl hp
            have hreader := @make_congr_beside (w.asIs overrun) (w'.asIs overrun)
              (root ++ [day]) leaf
              rfl hlook (hw.index day _ i hn hext) (hdata leaf rfl)
            rw [hid, hid]
            split_ifs
            · exact labelled_streamOf_congr hresolve (honly w) hreader 0
            · rfl
  · rw [foundAt_of_extension hext, foundAt_of_extension hext]

/-- Where the world looks different at two paths only, an index file and the data file beside it,
the other entries have what they had. -/
lemma foundAt_elsewhere (hw : Settled root w) {leaf : Bytes}
    (hlook : ∀ q, q ≠ root ++ [day] ++ [leaf ++ dotIdx] →
      q ≠ root ++ [day] ++ [leaf ++ dotData] → (w'.asIs overrun).look q =
        (w.asIs overrun).look q) {d name : Bytes}
    (hne : ¬ (d = day ∧ name = leaf ++ dotIdx)) :
    foundAt root w' overrun start end_ d name = foundAt root w overrun start end_ d name := by
  by_cases hext : extension name = dotIdx
  · obtain ⟨own, rfl⟩ := exists_leaf hext
    refine foundAt_congr hw (hlook _ (fun heq => hne ?_) fun heq => ?_) fun own' hown =>
      hlook _ (fun heq => ?_) fun heq => hne ?_
    · obtain ⟨hd, hname⟩ := List.append_inj' heq rfl
      exact ⟨List.singleton_inj.mp (List.append_cancel_left hd), List.singleton_inj.mp hname⟩
    · exact StreamWriter.append_dotIdx_ne _ _ (List.singleton_inj.mp (List.append_inj' heq rfl).2)
    · exact StreamWriter.append_dotIdx_ne _ _
        (List.singleton_inj.mp (List.append_inj' heq rfl).2).symm
    · obtain ⟨hd, hname⟩ := List.append_inj' heq rfl
      have hsame := List.append_cancel_right (List.singleton_inj.mp hname)
      rw [hown, hsame]
      exact ⟨List.singleton_inj.mp (List.append_cancel_left hd), rfl⟩
  · rw [foundAt_of_extension hext, foundAt_of_extension hext]

/-! ## Pairs -/

namespace FilePair

variable {p : FilePair}

/-- The records of a pair that are in the range, under the channel. -/
def answer (p : FilePair) (start end_ : UInt64) : List (Bytes × DataPiece) :=
  ((p.stream.records.map Record.piece).filter (StreamReader.within start end_)).map
    fun d => (p.stream.channel, d)

/-- One more record is one more answer, if it is in the range. -/
lemma answer_push (p : FilePair) (start end_ : UInt64) (r : Record) :
    (p.push r).answer start end_ = p.answer start end_ ++
      if StreamReader.within start end_ r.piece then [(p.stream.channel, r.piece)] else [] := by
  have hrecords : (p.push r).stream.records = p.stream.records ++ [r] := rfl
  have hchannel : (p.push r).stream.channel = p.stream.channel := rfl
  rw [answer, answer, hrecords, hchannel, List.map_append, List.filter_append, List.map_append,
    List.map_singleton, List.filter_singleton]
  cases StreamReader.within start end_ r.piece with
  | true => rfl
  | false => rfl

/-- The files of a pair in a day directory have names. -/
lemma Placed.plain {n : ℕ} (hp : p.Placed (root ++ [toDec n])) (hroot : root.Plain) :
    p.indexPath.Plain ∧ p.dataPath.Plain := by
  have hday : ∀ b, isDigit b = false → b ∉ toDec n := fun b hb => notMem_toDec hb n
  have hdir : p.dir.Plain := by
    rw [hp.dir]
    intro c hc
    rcases List.mem_append.mp hc with hc | hc
    · exact hroot c hc
    · rw [List.mem_singleton.mp hc]
      refine ⟨toDec_ne_nil n, hday 47 (by decide), ?_, ?_, hday 0 (by decide)⟩
      · exact fun heq => hday 46 (by decide) (heq ▸ List.mem_cons_self)
      · exact fun heq => hday 46 (by decide) (heq ▸ List.mem_cons_self)
  have hslash : (47 : UInt8) ∉ p.leaf := by
    intro hm
    have hlast : p.leaf ++ dotIdx ∈ p.indexPath := by
      rw [FilePair.indexPath, StreamWriter.indexPath]
      exact List.mem_append_right _ (List.mem_singleton_self _)
    exact (hp.index.canonical _ hlast).2 (List.mem_append_left _ hm)
  have hname : ∀ ext : Bytes, 3 ≤ ext.length → (47 : UInt8) ∉ ext →
    (0 : UInt8) ∉ ext →
      Path.Plain (p.dir ++ [p.leaf ++ ext]) := by
    intro ext hlen h47 h0 c hc
    rcases List.mem_append.mp hc with hc | hc
    · exact hdir c hc
    · rw [List.mem_singleton.mp hc]
      have hproper := Tree.proper_append p.leaf hlen
      refine ⟨?_, ?_, hproper.1, hproper.2, ?_⟩
      · exact List.append_ne_nil_of_left_ne_nil hp.leaf.1 _
      · exact fun hm => (List.mem_append.mp hm).elim hslash h47
      · exact fun hm => (List.mem_append.mp hm).elim hp.leaf.2.1 h0
  refine ⟨hname dotIdx ?_ StreamWriter.notMem_dotIdx.2 StreamWriter.notMem_dotIdx.1,
    hname dotData ?_ ?_ ?_⟩
  · rw [StreamWriter.dotIdx_eq]
    decide
  · rw [StreamWriter.dotData_eq]
    decide
  · rw [StreamWriter.dotData_eq]
    decide
  · rw [StreamWriter.dotData_eq]
    decide

/-- **A pair that a writer keeps** answers with its records. -/
lemma foundAt_pair {n : ℕ} (hk : p.Kept w) (hl : p.Linked w) (hf : p.stream.Fits)
    (hp : p.Placed (root ++ [toDec n])) (hroot : root.Plain)
    (htimes : ∀ r ∈ p.stream.records, r.time_ns ≠ 0)
    (hsorted : p.stream.records.Pairwise fun a b => a.time_ns ≤ b.time_ns) :
    foundAt root w overrun start end_ (toDec n) (p.leaf ++ dotIdx) = p.answer start end_ := by
  have hpath : root ++ [toDec n] ++ [p.leaf ++ dotIdx] = p.indexPath := by
    rw [FilePair.indexPath, hp.dir, StreamWriter.indexPath]
  have hfile := (hl.index p.indexPath).mpr rfl
  have hlook : (w.asIs overrun).look p.indexPath = some (.file (w.content p.index)) := by
    simp only [World.view, hfile]
  have hext : extension (p.leaf ++ dotIdx) = dotIdx := extension_append hp.leaf.1
  have hindex : IndexFileReader.IsIndex (p.stream.header kIndexFile) (w.content p.index) := by
    rw [hk.content_index]
    refine ⟨hasHeader_mono (List.prefix_append _ _), le_rfl, ?_, rfl⟩
    rw [Nat.mod_eq_of_lt hf.index_lt, Stream.length_index hf.sized]
    exact Nat.le_add_right _ _
  have hnameable : StorageScanner.Nameable root p.indexPath := by
    refine ⟨?_, fun c hc => ?_, ?_⟩
    · rw [← hpath, List.dropLast_concat]
      exact List.prefix_append _ _
    · rw [← hpath, List.append_assoc, List.drop_left] at hc
      rcases List.mem_pair.mp hc with rfl | rfl
      · exact notMem_toDec (by decide) n
      · refine fun hm => (List.mem_append.mp hm).elim hp.leaf.2.2 ?_
        rw [StreamWriter.dotIdx_eq]
        decide
    · rw [← hpath, List.getLastD_concat]
      exact hext
  obtain ⟨identifier, hid, hres⟩ := (StorageScanner.identified_iff hroot (hp.plain hroot).1
    (fun q => rfl) hlook).mpr ⟨hnameable, _, hindex⟩
  have hdata := @FilePair.respond_whole p w overrun start end_ hk hl hf hp.index htimes hsorted
  rw [foundAt, hpath, hfile, Option.isSome_some, if_pos rfl]
  rw [StorageScanner.streamsOfEntry, hpath, hlook, hid, if_pos ⟨by simp, hext⟩,
    Option.elim_some]
  simp only [StorageScanner.streamOf, hres]
  by_cases hmatch : (p.reader w overrun).matchTime start end_ = true
  · have hname := name_of_matchTime hk hl hf hp.index hmatch
    rw [if_pos hmatch, List.flatMap_singleton, Legible.labelled, StorageScanner.describe, hname,
      StorageScanner.getData_of_some hres, hdata, Option.getD_some, FilePair.answer]
  · rw [if_neg hmatch, FilePair.answer]
    rw [StorageScanner.respond_data, if_neg hmatch] at hdata
    rw [← hdata]
    rfl

end FilePair

/-! ## The whole answer -/

/-- An entry adds one stream to a listing at most. -/
lemma streamsOfEntry_of_mem {s : StorageScanner} {v : View} {path : Path} {n : UInt32}
    {f : DataStream} (h : f ∈ s.streamsOfEntry v path start end_ n name) :
    s.streamsOfEntry v path start end_ n name = [f] := by
  simp only [StorageScanner.streamsOfEntry] at h ⊢
  split_ifs at h ⊢ with hentry
  · cases hid : s.streamIdentifier v (path ++ [name]) with
    | none => simp [hid] at h
    | some identifier =>
        simp only [hid, Option.elim_some, StorageScanner.streamOf] at h ⊢
        cases hres : s.resolveIndexPath v identifier with
        | none => simp [hres] at h
        | some p =>
            simp only [hres] at h ⊢
            split_ifs at h ⊢ with hmatch
            · rw [List.mem_singleton.mp h]
            · cases h
  · cases h

/-- A stream that is listed for a day directory comes from one of its entries. -/
lemma exists_entry (cal : Calendar) (overrun : Path → Bytes) {f : DataStream}
    (h : f ∈ (⟨root⟩ : StorageScanner).streamsOfDay cal (w.asIs overrun) start end_ day) :
    dayWithin cal start end_ day = true ∧ ∃ name,
      Legible.labelled root (w.asIs overrun) start end_ f =
        foundAt root w overrun start end_ day name := by
  rw [StorageScanner.streamsOfDay] at h
  split_ifs at h with hdir
  · cases hn : stoul day with
    | none =>
        rw [hn] at h
        cases h
    | some n =>
        simp only [hn] at h
        split_ifs at h with hrange
        · rw [StorageScanner.extractStreams_eq start end_ _ fun c _ => by
            simp [StorageScanner.streamIdentifier, World.view]] at h
          obtain ⟨name, hname, hf⟩ := List.mem_flatMap.mp h
          obtain ⟨⟨c, m⟩, hmem, rfl⟩ := List.mem_map.mp hname
          have hthere : (w.tree.lookup (root ++ [day] ++ [c])).isSome = true := by
            rw [Tree.mem_children.mp hmem]
            rfl
          refine ⟨?_, c, ?_⟩
          · rw [dayWithin, hn, Option.any_some]
            exact decide_eq_true hrange
          · rw [foundAt, if_pos hthere, labelled_streamsOfEntry _ _ _ _ _ 0 (UInt32.ofNat n),
              streamsOfEntry_of_mem hf, List.flatMap_singleton]
        · cases h
  · cases h

/-- **The whole answer** of a client is what the day directories have, and what it gets for one
stream is what an entry has. -/
lemma collected_found (hw : Settled root w) (cal : Calendar) (overrun : Path → Bytes)
    (start end_ : UInt64) : ∃ answer,
      (⟨root⟩ : StorageScanner).collected cal (w.asIs overrun) start end_ = some answer ∧
      (answer.flatMap fun x => x.2.map fun d => (x.1.name, d)) =
        ((w.tree.children root).map Prod.fst).flatMap
          (foundIn root cal (w.asIs overrun) start end_) ∧
      ∀ x ∈ answer, ∃ day ∈ (w.tree.children root).map Prod.fst,
        dayWithin cal start end_ day = true ∧ ∃ name,
          (x.2.map fun d => (x.1.name, d)) = foundAt root w overrun start end_ day name := by
  have hlook : (w.asIs overrun).look root = some .dir := by
    simp only [World.view, hw.dir]
  refine ⟨_, by rw [StorageScanner.collected, StorageScanner.getStreams, if_pos hlook,
    Option.map_some], ?_, fun x hx => ?_⟩
  · rw [List.flatMap_map]
    have hlist : ∀ streams : List DataStream, (streams.flatMap fun f =>
        ((⟨root⟩ : StorageScanner).getData (w.asIs overrun) f.file start end_ 0
          (UInt32.ofNat UINT32_MAX)).data.map fun d => (f.name, d)) =
        streams.flatMap (Legible.labelled root (w.asIs overrun) start end_) := fun _ => rfl
    rw [hlist, List.flatMap_assoc]
    rfl
  · obtain ⟨f, hf, rfl⟩ := List.mem_map.mp hx
    obtain ⟨day, hday, hf⟩ := List.mem_flatMap.mp hf
    exact ⟨day, hday, exists_entry cal overrun hf⟩

end Tracebox
