import Tracebox.Reader.PathConfinement

/-!
# Whose bytes reach a client

Two file trees that differ only in the contents of files outside the storage root, and one request.
The index file is the same in both, since it lies below the root.  The data file is looked for
beside it, by name, and nothing checks where a link of that name leads.

* `LinkTree.Agree` — the trees have the same names and links, and the same files below the root;
  then every path leads to the same place in both.
* `DataOutside` — the name of the data file leads out of the root.
* `Consults` — the request makes the reader look into that file in a way that shows.
* `getData_equal_iff` — **the responses are equal for all such trees exactly when the request does
  not consult a file outside the root**.
-/

namespace Tracebox

open Bytes

/-! ## Trees that agree -/

namespace LinkTree

/-- What of an entry is not in a file. -/
def emptied : LinkNode → LinkNode
  | .file _ => .file []
  | n => n

/-- The same names and links, and the same files below `root`. -/
structure Agree (root : Path) (t t' : LinkTree) : Prop where
  shape : ∀ p, (t.node p).map emptied = (t'.node p).map emptied
  below : ∀ p, root <+: p → t.node p = t'.node p

variable {root : Path} {t t' : LinkTree}

lemma ofNode_emptied (n : LinkNode) : Component.ofNode (emptied n) = .ofNode n := by
  cases n <;> rfl

lemma Agree.component (h : Agree root t t') : t.component = t'.component := by
  funext cur c
  have hshape := h.shape (cur ++ [c])
  rw [LinkTree.component, LinkTree.component]
  cases hnode : t.node (cur ++ [c]) with
  | none =>
      rw [hnode, Option.map_none] at hshape
      rw [Option.map_eq_none_iff.mp hshape.symm]
  | some n =>
      rw [hnode, Option.map_some] at hshape
      obtain ⟨n', hnode', heq⟩ := Option.map_eq_some_iff.mp hshape.symm
      have hsame : Component.ofNode n = .ofNode n' := by
        rw [← ofNode_emptied n, ← ofNode_emptied n', heq]
      rw [hnode']
      simp only [hsame]

/-- **Every walk comes to the same end.** -/
lemma Agree.walk (h : Agree root t t') (links : ℕ) : t.walk links = t'.walk links := by
  have hwith : ∀ follow, t.walkWith follow = t'.walkWith follow := by
    intro follow
    funext cur cs
    induction cs generalizing cur with
    | nil => rfl
    | cons c cs ih => simp only [walkWith, h.component, ih]
  induction links with
  | zero => exact hwith _
  | succ links ih => rw [LinkTree.walk, LinkTree.walk, ih, hwith]

lemma Agree.resolve (h : Agree root t t') : t.resolve = t'.resolve := by
  funext p
  rw [LinkTree.resolve, LinkTree.resolve, h.walk]

/-- What is not a file is seen without its content. -/
lemma bind_seen_emptied {o o' : Option LinkNode} (h : o.map emptied = o'.map emptied)
    (hno : ∀ content, o ≠ some (.file content)) : o.bind seen = o'.bind seen := by
  rcases o with - | n <;> rcases o' with - | n'
  · rfl
  · simp at h
  · simp at h
  · cases n with
    | file content => exact absurd rfl (hno content)
    | dir => cases n' <;> simp [emptied, seen] at h ⊢
    | link target => cases n' <;> simp [emptied, seen] at h ⊢

/-- A path that does not lead to a file outside the root looks the same. -/
lemma Agree.look (h : Agree root t t') (overrun : Path → Bytes) {p : Path}
    (hp : ∀ q content, t.resolve p = .ok q → t.node q = some (.file content) → root <+: q) :
    (t.view overrun).look p = (t'.view overrun).look p := by
  simp only [view, ← h.resolve]
  cases hres : t.resolve p with
  | error e => rfl
  | ok q =>
      by_cases hbelow : root <+: q
      · simp only [h.below q hbelow]
      · exact bind_seen_emptied (h.shape q) fun content hfile =>
          hbelow (hp q content hres hfile)

/-- Other contents for the file at one path. -/
def rewritten (q : Path) (content : Bytes) (e : Path × LinkNode) : Path × LinkNode :=
  match e.2 with
  | .file _ => if e.1 = q then (q, .file content) else e
  | _ => e

lemma rewritten_fst (q : Path) (content : Bytes) (e : Path × LinkNode) :
    (rewritten q content e).1 = e.1 := by
  unfold rewritten
  split
  · split_ifs with h
    · exact h.symm
    · rfl
  · rfl

/-- The tree with other content in one file. -/
def rewrite (t : LinkTree) (q : Path) (content : Bytes) : LinkTree where
  entries := t.entries.map (rewritten q content)
  nodup := by
    have hfst : Prod.fst ∘ rewritten q content = Prod.fst := funext (rewritten_fst q content)
    rw [List.map_map, hfst]
    exact t.nodup
  named := by
    intro e he
    obtain ⟨e₀, he₀, rfl⟩ := List.mem_map.mp he
    rw [rewritten_fst]
    obtain ⟨hne, hname, hdir⟩ := t.named e₀ he₀
    exact ⟨hne, hname, hdir.imp_right fun hdir => List.mem_map.mpr ⟨_, hdir, rfl⟩⟩

lemma node_rewrite {q : Path} {old : Bytes} (hq : t.node q = some (.file old)) (content : Bytes)
    (p : Path) :
    (t.rewrite q content).node p = if p = q then some (.file content) else t.node p := by
  have hqne : q ≠ [] := by
    rintro rfl
    cases hq
  by_cases hp : p = []
  · subst hp
    rw [if_neg (Ne.symm hqne)]
    rfl
  · ext n
    rw [node_eq_some_iff hp, rewrite, List.mem_map]
    by_cases hpq : p = q
    · subst hpq
      rw [if_pos rfl]
      constructor
      · rintro ⟨⟨p₀, n₀⟩, he, heq⟩
        have hfst := rewritten_fst p content (p₀, n₀)
        rw [heq] at hfst
        obtain rfl : p = p₀ := hfst
        rw [← node_eq_some_iff hp, hq] at he
        cases he
        simpa [rewritten] using heq
      · intro hn
        cases hn
        exact ⟨_, (node_eq_some_iff hp).mp hq, by simp [rewritten]⟩
    · rw [if_neg hpq, node_eq_some_iff hp]
      constructor
      · rintro ⟨⟨p₀, n₀⟩, he, heq⟩
        have hfst := rewritten_fst q content (p₀, n₀)
        rw [heq] at hfst
        obtain rfl : p = p₀ := hfst
        cases n₀ <;> simp_all [rewritten]
      · intro he
        refine ⟨_, he, ?_⟩
        cases n <;> simp [rewritten, hpq]

/-- A file outside the root can be rewritten. -/
lemma agree_rewrite {q : Path} {old : Bytes} (hq : t.node q = some (.file old))
    (hout : ¬ root <+: q) (content : Bytes) : Agree root t (t.rewrite q content) where
  shape p := by
    rw [node_rewrite hq]
    split_ifs with hp
    · rw [hp, hq]
      rfl
    · rfl
  below p hp := by
    rw [node_rewrite hq, if_neg]
    rintro rfl
    exact hout hp

end LinkTree

/-! ## Readers of one file -/

section Readers

variable {v v' : View} {p : Path}

/-- A reader looks at the one path it is given. -/
lemma FileReader.make_congr (hlook : v.look p = v'.look p) (hover : v.overrun p = v'.overrun p) :
    FileReader.make v p = FileReader.make v' p := by
  have hcontent : FileReader.contentOf v p = FileReader.contentOf v' p := by
    rw [FileReader.contentOf, FileReader.contentOf, hlook]
  simp only [FileReader.make, hcontent, hover]

lemma IndexFileReader.make_congr (hlook : v.look p = v'.look p)
    (hover : v.overrun p = v'.overrun p) : IndexFileReader.make v p =
      IndexFileReader.make v' p := by
  simp only [IndexFileReader.make, FileReader.make_congr hlook hover]

/-- A stream's reader looks at its two files. -/
lemma StreamReader.make_congr (hover : v.overrun = v'.overrun) (hlook : v.look p = v'.look p)
    (hdata : ∀ ext_pos, find dotIdx p.string = some ext_pos →
      v.look (dataPath p ext_pos) = v'.look (dataPath p ext_pos)) :
    StreamReader.make v p = StreamReader.make v' p := by
  have hregular : is_regular_file v p = is_regular_file v' p := by
    rw [is_regular_file, is_regular_file, hlook]
  simp only [StreamReader.make, hregular, IndexFileReader.make_congr hlook (by rw [hover])]
  cases hfind : find dotIdx p.string with
  | none => rfl
  | some ext_pos =>
      have hsame : DataFileReader.make v (dataPath p ext_pos) =
          DataFileReader.make v' (dataPath p ext_pos) := by
        rw [DataFileReader.make, DataFileReader.make,
          FileReader.make_congr (hdata ext_pos hfind) (by rw [hover])]
      simp only [hsame]

/-- The reader of a stream with two files. -/
def StreamReader.pair (index : IndexFileReader) (data : DataFileReader) : StreamReader where
  index_ := some index
  data_ := some data
  status_ := if data.name ≠ index.name then .kHeadersDifferent else .kHealthy

/-- When there are two files. -/
lemma StreamReader.make_eq_pair {ext_pos : ℕ} (hregular : is_regular_file v p = true)
    (hfind : find dotIdx p.string = some ext_pos)
    (hcount : (IndexFileReader.make v p).records_cnt_ ≠ 0)
    (hvariable : (IndexFileReader.make v p).fixedSize = false) :
    StreamReader.make v p =
      pair (IndexFileReader.make v p) (DataFileReader.make v (dataPath p ext_pos)) := by
  simp only [StreamReader.make, hregular, hfind, hcount, hvariable, not_true_eq_false, if_false,
    Bool.false_eq_true, pair]

/-- With one file alone, what is beside it does not matter. -/
lemma StreamReader.make_alone (hover : v.overrun = v'.overrun) (hlook : v.look p = v'.look p)
    (halone : (IndexFileReader.make v p).records_cnt_ = 0 ∨
      (IndexFileReader.make v p).fixedSize = true) :
    StreamReader.make v p = StreamReader.make v' p := by
  have hregular : is_regular_file v p = is_regular_file v' p := by
    rw [is_regular_file, is_regular_file, hlook]
  have hindex := IndexFileReader.make_congr hlook (p := p) (by rw [hover])
  rw [hindex] at halone
  simp only [StreamReader.make, hregular, hindex]
  rcases halone with h | h
  · simp only [h, if_true]
  · simp only [h, if_true]

end Readers

/-! ## A data file without records -/

lemma ReadError.text_ne_nil (e : ReadError) : e.text ≠ [] := by
  have hopened : ascii " was not opened" ≠ [] := by decide +kernel
  have hopen : ascii "Couldn't open file " ≠ [] := by decide +kernel
  have hheader : ascii "Couldn't read LogFileHeader from " ≠ [] := by decide +kernel
  have hfixed : ascii "Can't read fixed payload from a variable length file " ≠ [] := by
    decide +kernel
  have hvariable : ascii "Can't read offset from a fixed length file " ≠ [] := by decide +kernel
  have hbytes : ascii " bytes" ≠ [] := by decide +kernel
  have hin : ascii " in " ≠ [] := by decide +kernel
  have hfrom : ascii " from " ≠ [] := by decide +kernel
  have hoffset : ascii " to the offset " ≠ [] := by decide +kernel
  cases e <;> simp [ReadError.text, *]

/-- No position of the file holds a record. -/
def DataFileReader.Barren (r : DataFileReader) : Prop :=
  r.header_ = none ∨ ∃ h, r.header_ = some h ∧ h.header_size_.toNat = sizeofLogFileHeader ∧
    r.size_bytes_ = sizeofLogFileHeader

/-- Every read of such a file fails with an error. -/
lemma DataFileReader.barren_read {r : DataFileReader} (h : r.Barren) (offset : ℕ) :
    (r.read offset).1 = 0 ∧ (r.read offset).2.2.last_error_ ≠ none ∧
      (r.read offset).2.2.Barren := by
  rcases h with h | ⟨hdr, h, hsize, hbytes⟩
  · have hread : r.read offset =
        (0, none, withError ⟨r.toFileReader.clear_error⟩ (.notOpened r.path_)) := by
      simp only [DataFileReader.read, FileReader.clear_error, h]
    rw [hread]
    exact ⟨rfl, by simp [withError, FileReader.log_error], Or.inl h⟩
  · have hout : r.size_bytes_ < hdr.header_size_.toNat ∨ offset < hdr.header_size_.toNat ∨
        toSize (r.size_bytes_ - sizeofVariableRecordDataHeader) < offset ∨
        hdr.file_type_ ≠ kDataFile := by
      rw [hsize, hbytes]
      have hlast : toSize ((sizeofLogFileHeader : ℤ) - sizeofVariableRecordDataHeader) = 37 := by
        decide +kernel
      rw [hlast]
      unfold sizeofLogFileHeader
      omega
    have hread : r.read offset = (0, none, withError ⟨r.toFileReader.clear_error⟩
        (.invalidOffset offset r.path_ r.size_bytes_)) := by
      simp only [DataFileReader.read, FileReader.clear_error, h, hout, if_true]
    rw [hread]
    exact ⟨rfl, by simp [withError, FileReader.log_error], Or.inr ⟨hdr, h, hsize, hbytes⟩⟩

/-! ## Reading two files -/

namespace StreamReader

variable {h : LogFileHeader} {I : Bytes}

/-- A healthy reader of an index with the header `h` and the bytes `I` and of the data file `D`. -/
def Paired (r : StreamReader) (h : LogFileHeader) (I : Bytes) (D : DataFileReader) : Prop :=
  ∃ index : IndexFileReader, r = ⟨some index, some D, .kHealthy⟩ ∧ index.Opens h I

/-- An entry that the reader looks up in the data file. -/
def Refers (h : LogFileHeader) (I : Bytes) (i : ℕ) : Prop :=
  h.entryTime I i ≠ 0 ∧ h.entryOffset I i ≠ 0

/-- The text `last_error` has for the data file. -/
def dataError (D : DataFileReader) : Bytes := (D.last_error_.map ReadError.text).getD []

lemma dataError_ne_nil {D : DataFileReader} (h : D.last_error_ ≠ none) : dataError D ≠ [] := by
  obtain ⟨e, he⟩ := Option.ne_none_iff_exists'.mp h
  simp [dataError, he, ReadError.text_ne_nil]

lemma last_error_eq {index : IndexFileReader} {D : DataFileReader} (h : index.last_error_ = none)
    (status : StreamStatus) :
    (⟨some index, some D, status⟩ : StreamReader).last_error = dataError D := by
  cases hD : D.last_error_ with
  | none => simp [last_error, dataError, h, hD]
  | some e => simp [last_error, dataError, h, hD]

variable {r : StreamReader} {D : DataFileReader} (h0 : h.record_size_ = 0)
  (htype : h.file_type_ = kIndexFile)

include h0 htype

/-- **An entry without a time or an offset** fails before the data file is looked at. -/
lemma read_idle (hr : r.Paired h I D) {i : ℕ} (hi : i < h.entryCount I)
    (hidle : ¬ Refers h I i) :
    (r.read i).1 = none ∧ (r.read i).2.Paired h I D ∧ (r.read i).2.last_error =
      dataError D := by
  obtain ⟨index, rfl, hopens⟩ := hr
  obtain ⟨htime, hgoes⟩ := IndexFileReader.timeOf_lt hopens htype hi
  have hfixed : (index.timeOf i).2.fixedSize = false := by simp [hgoes.opens.fixedSize, h0]
  obtain ⟨hoffset, hgoes'⟩ := IndexFileReader.readOffset_lt hgoes.opens h0 hi
  by_cases ht : h.entryTime I i = 0
  · have hread : read ⟨some index, some D, .kHealthy⟩ i =
        (none, ⟨some (index.timeOf i).2, some D, .kHealthy⟩) := by
      simp [read, htime, ht]
    rw [hread]
    exact ⟨rfl, ⟨_, rfl, hgoes.opens⟩, last_error_eq hgoes.no_error _⟩
  · have ho : h.entryOffset I i = 0 := by
      by_contra ho
      exact hidle ⟨ht, ho⟩
    have hread : read ⟨some index, some D, .kHealthy⟩ i =
        (none, ⟨some ((index.timeOf i).2.readOffset i).2, some D, .kHealthy⟩) := by
      simp [read, htime, ht, hfixed, readVariable, hoffset, ho]
    rw [hread]
    exact ⟨rfl, ⟨_, rfl, hgoes'.opens⟩, last_error_eq hgoes'.no_error _⟩

/-- **An entry that refers to a barren data file** fails with the error of that file. -/
lemma read_barren (hr : r.Paired h I D) (hD : D.Barren) {i : ℕ} (hi : i < h.entryCount I)
    (hrefers : Refers h I i) :
    (r.read i).1 = none ∧ ∃ D' : DataFileReader, D'.Barren ∧ D'.last_error_ ≠ none ∧
      (r.read i).2.Paired h I D' ∧ (r.read i).2.last_error = dataError D' := by
  obtain ⟨index, rfl, hopens⟩ := hr
  obtain ⟨htime, hgoes⟩ := IndexFileReader.timeOf_lt hopens htype hi
  have hfixed : (index.timeOf i).2.fixedSize = false := by simp [hgoes.opens.fixedSize, h0]
  obtain ⟨hoffset, hgoes'⟩ := IndexFileReader.readOffset_lt hgoes.opens h0 hi
  obtain ⟨hsize, herror, hbarren⟩ := DataFileReader.barren_read hD (h.entryOffset I i)
  have hread : read ⟨some index, some D, .kHealthy⟩ i =
      (none, ⟨some ((index.timeOf i).2.readOffset i).2,
        some (D.read (h.entryOffset I i)).2.2, .kHealthy⟩) := by
    simp [read, htime, hrefers.1, hfixed, readVariable, hoffset, hrefers.2, hsize, herror]
  rw [hread]
  exact ⟨rfl, _, hbarren, herror, ⟨_, rfl, hgoes'.opens⟩, last_error_eq hgoes'.no_error _⟩

end StreamReader

/-! ## The loop of `getData` -/

namespace StorageScanner

section Loop

variable {h : LogFileHeader} {I : Bytes} {D : DataFileReader} (h0 : h.record_size_ = 0)
  (htype : h.file_type_ = kIndexFile) (start end_ : UInt64) {max_size : ℕ}

include h0 htype

/-- When no entry refers to the data file and there is no error, nothing comes out. -/
lemma collect_idle (hD : D.last_error_ = none) {remaining : ℕ} :
    ∀ {idx : ℕ} {r : StreamReader}, r.Paired h I D → idx + remaining ≤ h.entryCount I →
    (∀ i, idx ≤ i → i < idx + remaining → ¬ StreamReader.Refers h I i) →
    collect start end_ max_size remaining idx r {} = {} := by
  induction remaining with
  | zero => exact fun _ _ _ => rfl
  | succ remaining ih =>
      intro idx r hr hle hidle
      obtain ⟨hnone, hr', herror⟩ := StreamReader.read_idle h0 htype hr (i := idx) (by omega)
        (hidle idx le_rfl (by omega))
      have hempty : StreamReader.dataError D = [] := by simp [StreamReader.dataError, hD]
      simp only [collect, hnone, herror, hempty]
      split_ifs
      · exact ih hr' (by omega) fun i hi hlt => hidle i (by omega) (by omega)
      · rfl

/-- **When the data file is barren**, an error comes out as soon as an entry refers to it, or when
there was an error from the start. -/
lemma collect_barren (hmax : 0 < max_size) {remaining : ℕ} : ∀ {idx : ℕ} {r : StreamReader}
    {D : DataFileReader} {result : DataStreamsResponse}, r.Paired h I D → D.Barren →
    result.data = [] → idx + remaining ≤ h.entryCount I →
    (D.last_error_ ≠ none ∧ 0 < remaining ∨
      ∃ i, idx ≤ i ∧ i < idx + remaining ∧ StreamReader.Refers h I i) →
    (collect start end_ max_size remaining idx r result).errors ≠ [] := by
  induction remaining with
  | zero =>
      intro idx r D result _ _ _ _ hsome
      rcases hsome with ⟨-, h⟩ | ⟨i, h₁, h₂, -⟩ <;> omega
  | succ remaining ih =>
      intro idx r D result hr hD hdata hle hsome
      have hroom : result.data.length < max_size := by simpa [hdata] using hmax
      -- what this entry leaves of the data file, and the error it adds
      obtain ⟨hnone, D', hD', hr', herror, hlast⟩ : (r.read idx).1 = none ∧
          ∃ D' : DataFileReader, D'.Barren ∧ (r.read idx).2.Paired h I D' ∧
            (r.read idx).2.last_error = StreamReader.dataError D' ∧
            (D.last_error_ ≠ none ∨ StreamReader.Refers h I idx →
              D'.last_error_ ≠ none) := by
        by_cases hrefers : StreamReader.Refers h I idx
        · obtain ⟨hnone, D', hD', hlast, hr', herror⟩ :=
            StreamReader.read_barren h0 htype hr hD (by omega) hrefers
          exact ⟨hnone, D', hD', hr', herror, fun _ => hlast⟩
        · obtain ⟨hnone, hr', herror⟩ :=
            StreamReader.read_idle h0 htype hr (by omega) hrefers
          exact ⟨hnone, D, hD, hr', herror, fun h => h.resolve_right hrefers⟩
      simp only [collect, hroom, if_true, hnone]
      by_cases hend : remaining = 0
      · have hmust : D'.last_error_ ≠ none := by
          refine hlast ?_
          rcases hsome with ⟨h, -⟩ | ⟨i, h₁, h₂, hi⟩
          · exact Or.inl h
          · obtain rfl : i = idx := by omega
            exact Or.inr hi
        subst hend
        simp only [collect, herror]
        exact StreamReader.dataError_ne_nil hmust
      · refine ih hr' hD' hdata (by omega) ?_
        rcases hsome with ⟨h, -⟩ | ⟨i, h₁, h₂, hi⟩
        · exact Or.inl ⟨hlast (Or.inl h), Nat.pos_of_ne_zero hend⟩
        · rcases h₁.eq_or_lt with rfl | h₁
          · exact Or.inl ⟨hlast (Or.inr hi), Nat.pos_of_ne_zero hend⟩
          · exact Or.inr ⟨i, h₁, by omega, hi⟩

end Loop

/-! ## One request in two trees -/

/-- `getData` once it has the path of the index file. -/
def respond (reader : StreamReader) (start_time end_time : UInt64) (start_idx max_size : UInt32) :
    DataStreamsResponse :=
  if ¬ reader.matchTime start_time end_time then {}
  else if reader.records_cnt.getD 0 ≤ start_idx.toNat then {}
  else collect start_time end_time max_size.toNat (reader.records_cnt.getD 0 - start_idx.toNat)
    start_idx.toNat reader {}

lemma getData_of_some {s : StorageScanner} {v : View} {file : Bytes} {p : Path}
    (h : s.resolveIndexPath v file = some p) (start_time end_time : UInt64)
    (start_idx max_size : UInt32) : s.getData v file start_time end_time start_idx max_size =
      respond (StreamReader.make v p) start_time end_time start_idx max_size := by
  rw [getData, h]
  rfl

lemma getData_of_none {s : StorageScanner} {v : View} {file : Bytes}
    (h : s.resolveIndexPath v file = none) (start_time end_time : UInt64)
    (start_idx max_size : UInt32) : s.getData v file start_time end_time start_idx max_size =
      { errors := ascii "invalid reader path" } := by
  rw [getData, h]

variable {s : StorageScanner} {t t' : LinkTree} {overrun : Path → Bytes} {file : Bytes}

/-- The same strings are accepted, and they name the same index. -/
lemma resolveIndexPath_agree (file : Bytes) (h : LinkTree.Agree s.folder_ t t')
    (overrun overrun' : Path → Bytes) :
    s.resolveIndexPath (t.view overrun) file = s.resolveIndexPath (t'.view overrun') file := by
  ext p
  rw [resolveIndexPath_view_iff, resolveIndexPath_view_iff, h.resolve]
  constructor
  · rintro ⟨htext, hres, hroot, hr, hfile⟩
    rw [h.below p hroot] at hfile
    exact ⟨htext, hres, hroot, hr, hfile⟩
  · rintro ⟨htext, hres, hroot, hr, hfile⟩
    rw [← h.below p hroot] at hfile
    exact ⟨htext, hres, hroot, hr, hfile⟩

/-- The name of the data file beside `p` leads to a file that is not below the storage root. -/
def DataOutside (s : StorageScanner) (t : LinkTree) (p : Path) : Prop :=
  ∃ ext_pos q content, find dotIdx p.string = some ext_pos ∧
    t.resolve (StreamReader.dataPath p ext_pos) = .ok q ∧ t.node q = some (.file content) ∧
    ¬ s.folder_ <+: q

/-- The request makes the reader look into the data file: the records have a variable size, the
first and the last timestamp match, the request asks for entries that are there, and one of them
refers to the data file; or the stream has no name, and a data file without a header looks like
its own. -/
structure Consults (h : LogFileHeader) (I : Bytes) (start end_ : UInt64)
    (start_idx max_size : UInt32) : Prop where
  variable_size : h.record_size_ = 0
  matches_start : start ≤ end_ ∧ h.entryTime I 0 ≤ end_
  matches_end : start ≤ h.entryTime I (h.entryCount I - 1)
  entries : start_idx.toNat < h.entryCount I ∧ 0 < max_size.toNat
  refers : h.name_.head? = some 0 ∨
    ∃ i, start_idx.toNat ≤ i ∧ i < h.entryCount I ∧ StreamReader.Refers h I i

/-- The request makes the reader look into a file outside the storage root. -/
def ReadsOutside (s : StorageScanner) (t : LinkTree) (file : Bytes) (start end_ : UInt64)
    (start_idx max_size : UInt32) : Prop :=
  ∃ p I h, s.resolveIndexPath (t.view fun _ => []) file = some p ∧ t.node p = some (.file I) ∧
    IndexFileReader.IsIndex h I ∧ DataOutside s t p ∧ Consults h I start end_ start_idx max_size

/-- A stream has no name when its field begins with a NUL. -/
lemma cString_append_eq_nil_iff {name : Bytes} (hlen : name.length = 32) (rest : Bytes) :
    cString (name ++ rest) = [] ↔ name.head? = some 0 := by
  cases name with
  | nil => simp at hlen
  | cons b bs =>
      by_cases hb : b = 0 <;> simp [cString, hb]

/-- A data file with a name has a header, and then there was no error. -/
lemma make_no_error {v : View} {p : Path} (h : (DataFileReader.make v p).name ≠ []) :
    (DataFileReader.make v p).last_error_ = none := by
  have hfile : (FileReader.make v p).name ≠ [] → (FileReader.make v p).last_error_ = none := by
    rw [FileReader.name, FileReader.make]
    simp only
    split_ifs <;> simp
  exact hfile h

/-- What the constructor makes of an accepted index. -/
lemma opens_of_isIndex {v : View} {p : Path} {I : Bytes} {h : LogFileHeader}
    (hlook : v.look p = some (.file I)) (hindex : IndexFileReader.IsIndex h I) :
    (IndexFileReader.make v p).Opens h I ∧
      (IndexFileReader.make v p).name = cString (h.name_ ++ v.overrun p) ∧
      (0 < h.entryCount I → (IndexFileReader.make v p).start_ns_ = h.entryTime I 0 ∧
        (IndexFileReader.make v p).end_ns_ = h.entryTime I (h.entryCount I - 1)) := by
  obtain ⟨hhas, h49, hsize, htype⟩ := hindex
  have hne : I.length % 2 ^ 32 ≠ 0 := by
    unfold sizeofLogFileHeader at h49
    omega
  obtain ⟨hopens, hover, hns⟩ :=
    IndexFileReader.make_opens hlook (FileReader.make_of_hasHeader hlook hhas hne) hsize
  exact ⟨hopens, by rw [FileReader.name, hopens.header, hover], hns htype⟩

/-- **A request that does not consult the data file** gets the same answer whatever is in it. -/
lemma respond_idle {v : View} {p : Path} {I : Bytes} {h : LogFileHeader} {D : DataFileReader}
    {start end_ : UInt64} {start_idx max_size : UInt32} (hlook : v.look p = some (.file I))
    (hindex : IndexFileReader.IsIndex h I) (h0 : h.record_size_ = 0)
    (hD : D.name ≠ [] → D.last_error_ = none)
    (hno : ¬ Consults h I start end_ start_idx max_size) :
    respond (.pair (IndexFileReader.make v p) D) start end_ start_idx max_size = {} := by
  obtain ⟨hopens, hname, hns⟩ := opens_of_isIndex hlook hindex
  have hcount : (StreamReader.pair (IndexFileReader.make v p) D).records_cnt.getD 0 =
      h.entryCount I := by simp [StreamReader.pair, StreamReader.records_cnt, hopens.count]
  rw [respond]
  by_cases hmatch : (StreamReader.pair (IndexFileReader.make v p) D).matchTime start end_ = true
  · rw [if_neg (not_not.mpr hmatch), hcount]
    by_cases hpos : h.entryCount I ≤ start_idx.toNat
    · rw [if_pos hpos]
    · rw [if_neg hpos]
      obtain ⟨hhealthy, htimes⟩ : D.name = (IndexFileReader.make v p).name ∧
          (IndexFileReader.make v p).matchTime start end_ = true := by
        simpa [StreamReader.matchTime, StreamReader.pair] using hmatch
      obtain ⟨hstart, hend⟩ := hns (by omega)
      simp only [IndexFileReader.matchTime, hstart, hend, decide_eq_true_eq] at htimes
      by_cases hmax : 0 < max_size.toNat
      · have hrefers : ¬ (h.name_.head? = some 0 ∨
            ∃ i, start_idx.toNat ≤ i ∧ i < h.entryCount I ∧ StreamReader.Refers h I i) :=
          fun hrefers => hno ⟨h0, ⟨htimes.2.1, htimes.2.2.1⟩, htimes.2.2.2,
            ⟨by omega, hmax⟩, hrefers⟩
        obtain ⟨hhead, hnone⟩ := not_or.mp hrefers
        have hnamed : D.name ≠ [] := by
          rw [hhealthy, hname]
          exact fun hnil => hhead ((cString_append_eq_nil_iff h.name_length _).mp hnil)
        have hpaired : (StreamReader.pair (IndexFileReader.make v p) D).Paired h I D :=
          ⟨_, by rw [StreamReader.pair, if_neg (not_not.mpr hhealthy)], hopens⟩
        refine collect_idle h0 hindex.2.2.2 start end_ (hD hnamed) hpaired (by omega) ?_
        exact fun i hi hlt hrefers => hnone ⟨i, hi, by omega, hrefers⟩
      · obtain ⟨remaining, hrem⟩ : ∃ k, h.entryCount I - start_idx.toNat = k + 1 :=
          ⟨h.entryCount I - start_idx.toNat - 1, by omega⟩
        have hfull : ¬ ([] : List DataPiece).length < max_size.toNat := by simpa using hmax
        rw [hrem, collect, if_neg hfull]
  · rw [if_pos hmatch]

/-! ## Two contents that tell the difference -/

/-- The reader of a file that is a header and nothing else. -/
lemma make_of_encode {v : View} {p : Path} {h : LogFileHeader}
    (hlook : v.look p = some (.file h.encode)) :
    (DataFileReader.make v p).header_ = some h ∧
      (DataFileReader.make v p).size_bytes_ = sizeofLogFileHeader ∧
      (DataFileReader.make v p).name = cString (h.name_ ++ v.overrun p) := by
  have hheader := FileReader.make_of_hasHeader hlook (hasHeader_mono List.prefix_rfl)
    (by rw [h.length_encode]; decide)
  obtain ⟨-, -, hmake⟩ := FileReader.make_of_some hlook hheader
  rw [h.length_encode] at hmake
  simp only [DataFileReader.make, hmake, FileReader.name]
  exact ⟨trivial, rfl, trivial⟩

/-- There is a data file that does not belong to the stream. -/
lemma exists_foreign {name : Bytes} (hlen : name.length = 32) :
    ∃ content, ∀ {v : View} {p : Path}, v.look p = some (.file content) → v.overrun p = [] →
      (DataFileReader.make v p).name ≠ cString name := by
  by_cases hhead : name.head? = some 0
  · have hnil : cString name = [] := by
      have := (cString_append_eq_nil_iff hlen []).mpr hhead
      rwa [List.append_nil] at this
    refine ⟨(StreamWriter.header { folder_ := [], name_ := ascii "x" } 0 kDataFile).encode,
      fun hlook hover => ?_⟩
    obtain ⟨-, -, hname⟩ := make_of_encode hlook
    rw [hname, hover, hnil]
    decide +kernel
  · refine ⟨[], fun {v p} hlook _ => ?_⟩
    have hc : FileReader.contentOf v p = [] := by rw [FileReader.contentOf, hlook]
    have hempty : (DataFileReader.make v p).name = [] := by
      simp [DataFileReader.make, FileReader.make, hc, FileReader.name]
    rw [hempty]
    intro hnil
    refine hhead ((cString_append_eq_nil_iff hlen []).mp ?_)
    rw [List.append_nil, ← hnil]

/-- There is a data file that looks like the stream's own and holds no record. -/
lemma exists_barren (h : LogFileHeader) : ∃ content, ∀ {v : View} {p : Path},
    v.look p = some (.file content) → v.overrun p = [] →
      (DataFileReader.make v p).name = cString h.name_ ∧ (DataFileReader.make v p).Barren ∧
        (h.name_.head? = some 0 → (DataFileReader.make v p).last_error_ ≠ none) := by
  by_cases hhead : h.name_.head? = some 0
  · have hnil : cString h.name_ = [] := by
      have := (cString_append_eq_nil_iff h.name_length []).mpr hhead
      rwa [List.append_nil] at this
    refine ⟨[0], fun {v p} hlook _ => ?_⟩
    have hc : FileReader.contentOf v p = [0] := by rw [FileReader.contentOf, hlook]
    have hmake : FileReader.make v p =
        { path_ := p, if_ := ⟨[0], 1, false⟩, size_bytes_ := 1,
          last_error_ := some (.noHeader p) } := by
      simp [FileReader.make, hc, IfStream.read, sizeofLogFileHeader]
    simp only [DataFileReader.make, hmake, FileReader.name]
    exact ⟨hnil.symm, Or.inl rfl, by simp⟩
  · obtain ⟨data, hdata⟩ : ∃ data : LogFileHeader, data = { h with
      header_size_ := UInt16.ofNat sizeofLogFileHeader, file_type_ := kDataFile } := ⟨_, rfl⟩
    refine ⟨data.encode, fun hlook hover => ?_⟩
    obtain ⟨hheader, hsize, hname⟩ := make_of_encode hlook
    rw [hover, List.append_nil] at hname
    refine ⟨by rw [hname, hdata], Or.inr ⟨data, hheader, by rw [hdata]; rfl, hsize⟩,
      fun h => absurd h hhead⟩

/-! ## The responses -/

/-- A data file with another name is not read. -/
lemma respond_foreign {index : IndexFileReader} {D : DataFileReader} (hname : D.name ≠ index.name)
    (start end_ : UInt64) (start_idx max_size : UInt32) :
    respond (.pair index D) start end_ start_idx max_size = {} := by
  have hmatch : ¬ (StreamReader.pair index D).matchTime start end_ = true := by
    simp [StreamReader.matchTime, StreamReader.pair, hname]
  rw [respond, if_pos hmatch]

/-- **A request that consults a barren data file** reports an error. -/
lemma respond_barren {v : View} {p : Path} {I : Bytes} {h : LogFileHeader} {D : DataFileReader}
    {start end_ : UInt64} {start_idx max_size : UInt32} (hlook : v.look p = some (.file I))
    (hindex : IndexFileReader.IsIndex h I) (hconsults : Consults h I start end_ start_idx max_size)
    (hname : D.name = (IndexFileReader.make v p).name) (hD : D.Barren)
    (hlast : h.name_.head? = some 0 → D.last_error_ ≠ none) :
    (respond (.pair (IndexFileReader.make v p) D) start end_ start_idx max_size).errors ≠ [] := by
  obtain ⟨h0, ⟨hle, hfirst⟩, hend, ⟨hidx, hmax⟩, hrefers⟩ := hconsults
  obtain ⟨hopens, -, hns⟩ := opens_of_isIndex hlook hindex
  obtain ⟨hstart_ns, hend_ns⟩ := hns (by omega)
  have hpair : StreamReader.pair (IndexFileReader.make v p) D =
      ⟨some (IndexFileReader.make v p), some D, .kHealthy⟩ := by
    rw [StreamReader.pair, if_neg (not_not.mpr hname)]
  have hne : h.entryCount I ≠ 0 := by omega
  have hmatch : (StreamReader.pair (IndexFileReader.make v p) D).matchTime start end_ = true := by
    simp [hpair, StreamReader.matchTime, IndexFileReader.matchTime, hopens.count, hstart_ns,
      hend_ns, hne, hle, hfirst, hend]
  have hcount : (StreamReader.pair (IndexFileReader.make v p) D).records_cnt.getD 0 =
      h.entryCount I := by simp [StreamReader.pair, StreamReader.records_cnt, hopens.count]
  rw [respond, if_neg (not_not.mpr hmatch), hcount, if_neg (by omega)]
  refine collect_barren h0 hindex.2.2.2 start end_ hmax ⟨_, hpair, hopens⟩ hD rfl (by omega) ?_
  rcases hrefers with hhead | ⟨i, hi, hlt, hrefers⟩
  · exact Or.inl ⟨hlast hhead, by omega⟩
  · exact Or.inr ⟨i, hi, by omega, hrefers⟩

/-- **The response does not depend on files outside the storage root exactly when the request does
not read one.**  The trees have the same names and links and the same files below the root; what
follows a header in memory is the same in both runs. -/
theorem getData_equal_iff (s : StorageScanner) (t : LinkTree) (file : Bytes)
    (start end_ : UInt64) (start_idx max_size : UInt32) :
    (∀ t' overrun, LinkTree.Agree s.folder_ t t' →
      s.getData (t.view overrun) file start end_ start_idx max_size =
        s.getData (t'.view overrun) file start end_ start_idx max_size) ↔
    ¬ ReadsOutside s t file start end_ start_idx max_size := by
  constructor
  · rintro hall
      ⟨p, I, h, hres, hfile, hindex, ⟨ext_pos, q, old, hfind, hq, hold, hout⟩, hconsults⟩
    obtain ⟨-, -, -, hp, -⟩ := resolveIndexPath_view_iff.mp hres
    obtain ⟨foreign, hforeign⟩ := exists_foreign h.name_length
    obtain ⟨barren, hbarren⟩ := exists_barren h
    -- what becomes of the request when the file outside has another content
    have hrewritten : ∀ content, ∃ v : View, v.overrun = (fun _ => []) ∧
        v.look p = some (.file I) ∧
        v.look (StreamReader.dataPath p ext_pos) = some (.file content) ∧
        s.getData (t.view fun _ => []) file start end_ start_idx max_size =
          respond (.pair (IndexFileReader.make v p)
            (DataFileReader.make v (StreamReader.dataPath p ext_pos))) start end_ start_idx
            max_size := by
      intro content
      have hagree : LinkTree.Agree s.folder_ t (t.rewrite q content) :=
        LinkTree.agree_rewrite hold hout content
      have hlook : ((t.rewrite q content).view fun _ => []).look p = some (.file I) := by
        obtain ⟨-, -, hroot, -⟩ := resolveIndexPath_view_iff.mp hres
        rw [LinkTree.look_eq_file_iff, ← hagree.resolve]
        exact ⟨p, hp, by rw [← hagree.below p hroot, hfile]⟩
      have hdata : ((t.rewrite q content).view fun _ => []).look
          (StreamReader.dataPath p ext_pos) = some (.file content) := by
        rw [LinkTree.look_eq_file_iff, ← hagree.resolve]
        exact ⟨q, hq, by rw [LinkTree.node_rewrite hold, if_pos rfl]⟩
      obtain ⟨hopens, -⟩ := opens_of_isIndex hlook hindex
      have hcount : (IndexFileReader.make ((t.rewrite q content).view fun _ => [])
          p).records_cnt_ ≠ 0 := by
        rw [hopens.count]
        have := hconsults.entries.1
        omega
      have hvariable : (IndexFileReader.make ((t.rewrite q content).view fun _ => [])
          p).fixedSize = false := by simp [hopens.fixedSize, hconsults.variable_size]
      refine ⟨(t.rewrite q content).view fun _ => [], rfl, hlook, hdata, ?_⟩
      rw [hall _ _ hagree,
        getData_of_some ((resolveIndexPath_agree file hagree _ _).symm.trans hres),
          StreamReader.make_eq_pair (by rw [StreamReader.is_regular_file, hlook]) hfind hcount
          hvariable]
    have hname : ∀ v : View, v.overrun = (fun _ => []) → v.look p = some (.file I) →
        (IndexFileReader.make v p).name = cString h.name_ := by
      intro v hover hlook
      rw [(opens_of_isIndex hlook hindex).2.1, hover, List.append_nil]
    obtain ⟨v₁, hover₁, hlook₁, hdata₁, hget₁⟩ := hrewritten foreign
    obtain ⟨v₂, hover₂, hlook₂, hdata₂, hget₂⟩ := hrewritten barren
    have hsilent : (s.getData (t.view fun _ => []) file start end_ start_idx max_size).errors =
        [] := by
      rw [hget₁, respond_foreign]
      rw [hname v₁ hover₁ hlook₁]
      exact hforeign hdata₁ (by rw [hover₁])
    obtain ⟨hname₂, hbarren₂, hlast₂⟩ := hbarren hdata₂ (by rw [hover₂])
    have hloud := respond_barren hlook₂ hindex hconsults
      (hname₂.trans (hname v₂ hover₂ hlook₂).symm) hbarren₂ hlast₂
    rw [← hget₂] at hloud
    exact hloud hsilent
  · intro hreads t' overrun hagree
    have hsame := resolveIndexPath_agree file hagree overrun overrun
    cases hres : s.resolveIndexPath (t.view overrun) file with
    | none => rw [getData_of_none hres, getData_of_none (hsame.symm.trans hres)]
    | some p =>
        rw [getData_of_some hres, getData_of_some (hsame.symm.trans hres)]
        obtain ⟨htext, hpath, hroot, hp, I, h, hfile, hindex⟩ :=
          resolveIndexPath_view_iff.mp hres
        have hlook : (t.view overrun).look p = some (.file I) :=
          LinkTree.look_eq_file_iff.mpr ⟨p, hp, hfile⟩
        have hlook' : (t'.view overrun).look p = some (.file I) := by
          rw [LinkTree.look_eq_file_iff, ← hagree.resolve]
          exact ⟨p, hp, by rw [← hagree.below p hroot, hfile]⟩
        have hboth : (t.view overrun).look p = (t'.view overrun).look p := hlook.trans hlook'.symm
        have hover : (t.view overrun).overrun = (t'.view overrun).overrun := rfl
        by_cases houtside : DataOutside s t p
        · by_cases halone : (IndexFileReader.make (t.view overrun) p).records_cnt_ = 0 ∨
              (IndexFileReader.make (t.view overrun) p).fixedSize = true
          · rw [StreamReader.make_alone hover hboth halone]
          · -- two files, of which the second is outside and not consulted
            obtain ⟨hcount, hfixed⟩ := not_or.mp halone
            obtain ⟨hopens, -⟩ := opens_of_isIndex hlook hindex
            have hvariable : (IndexFileReader.make (t.view overrun) p).fixedSize = false := by
              simpa using hfixed
            have h0 : h.record_size_ = 0 := by simpa [hopens.fixedSize] using hvariable
            have hno : ¬ Consults h I start end_ start_idx max_size := by
              intro hconsults
              refine hreads ⟨p, I, h, ?_, hfile, hindex, houtside, hconsults⟩
              exact resolveIndexPath_view_iff.mpr
                ⟨htext, hpath, hroot, hp, I, h, hfile, hindex⟩
            obtain ⟨ext_pos, -, -, hfind, -⟩ := houtside
            have hindex' := IndexFileReader.make_congr hboth rfl
            rw [StreamReader.make_eq_pair (by rw [StreamReader.is_regular_file, hlook]) hfind
                hcount hvariable,
              StreamReader.make_eq_pair (by rw [StreamReader.is_regular_file, hlook']) hfind
                (hindex' ▸ hcount) (hindex' ▸ hvariable),
              respond_idle hlook hindex h0 make_no_error hno,
              respond_idle hlook' hindex h0 make_no_error hno]
        · rw [StreamReader.make_congr hover hboth]
          intro ext_pos hfind
          refine hagree.look overrun fun q content hq hcontent => ?_
          by_contra hout
          exact houtside ⟨ext_pos, q, content, hfind, hq, hcontent, hout⟩

/-- A storage root with one index of one record, and a link where its data file should be. -/
def leakyTree : LinkTree where
  entries := [([ascii "root"], .dir), ([ascii "root", ascii "20240101"], .dir),
    ([ascii "root", ascii "20240101", ascii "a.idx"],
      .file ((StreamWriter.header { folder_ := [], name_ := ascii "a" } 7 kIndexFile).encode ++
        (toLE 8 7 ++ toLE 4 sizeofLogFileHeader))),
    ([ascii "root", ascii "20240101", ascii "a.data"], .link (ascii "../../other/a.data")),
    ([ascii "other"], .dir),
    ([ascii "other", ascii "a.data"],
      .file ((StreamWriter.header { folder_ := [], name_ := ascii "a" } 7 kDataFile).encode ++
        (toLE 8 7 ++ (toLE 4 6 ++ ascii "secret"))))]
  nodup := by decide +kernel
  named := by decide +kernel

/-- Two trees that differ in a file outside the storage root, and a client that sees which is
which. -/
theorem link_leaks :
    let s : StorageScanner := ⟨[ascii "root"]⟩
    let public_ : Bytes := (StreamWriter.header { folder_ := [], name_ := ascii "a" } 7
      kDataFile).encode ++ (toLE 8 7 ++ (toLE 4 6 ++ ascii "public"))
    let t' := leakyTree.rewrite [ascii "other", ascii "a.data"] public_
    LinkTree.Agree s.folder_ leakyTree t' ∧
    (s.getData (leakyTree.view fun _ => []) (ascii "20240101/a.idx") 0 9 0 1).data =
      [⟨7, ascii "secret", 0⟩] ∧
    (s.getData (t'.view fun _ => []) (ascii "20240101/a.idx") 0 9 0 1).data =
      [⟨7, ascii "public", 0⟩] := by
  intro s public_ t'
  have hfile : leakyTree.node [ascii "other", ascii "a.data"] = some (.file
      ((StreamWriter.header { folder_ := [], name_ := ascii "a" } 7 kDataFile).encode ++
        (toLE 8 7 ++ (toLE 4 6 ++ ascii "secret")))) := by decide +kernel
  exact ⟨LinkTree.agree_rewrite hfile (by decide +kernel) public_, by decide +kernel,
    by decide +kernel⟩

end StorageScanner

end Tracebox
