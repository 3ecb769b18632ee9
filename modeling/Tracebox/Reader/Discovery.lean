import Tracebox.Reader.PathConfinement

/-!
# Discovered identifiers

Discovery walks through the day directories below the storage root; reading resolves whatever path
the client names.  This module compares the two on trees without symbolic links below the root.

* `resolveIndexPath_linkFree_iff` — what reading accepts: any spelling of the path of any index
  below the root.
* `Listable` — what discovery comes across: `day/name.idx`.
* `getData_refused_iff` — a request is refused for its identifier and nothing else.
* `readable_discovered_iff` — **what is listed can be read, and what can be read is listable
  exactly when it is spelled as discovery spells it**.
-/

namespace Tracebox

open Bytes

namespace LinkTree

variable {t : LinkTree} {root : Path}

/-- There are no links below `root`. -/
def LinkFree (t : LinkTree) (root : Path) : Prop :=
  ∀ p target, root <+: p → t.node p ≠ some (.link target)

/-- **Without links a path leads where its components say.** -/
lemma walk_linkFree (hfree : t.LinkFree root) (links : ℕ) {cs : List Bytes} : ∀ {cur q : Path},
    root <+: cur → [46, 46] ∉ cs → t.walk links cur cs = .ok q →
      q = cur ++ cs.filter counts := by
  obtain ⟨follow, hwalk⟩ : ∃ follow, t.walk links = t.walkWith follow := by
    cases links <;> exact ⟨_, rfl⟩
  rw [hwalk]
  induction cs with
  | nil =>
      intro cur q _ _ h
      cases h
      simp
  | cons c cs ih =>
      intro cur q hroot hdots h
      obtain ⟨hc, hcs⟩ : [46, 46] ≠ c ∧ [46, 46] ∉ cs := by simpa using hdots
      have hroot' : root <+: cur ++ [c] := hroot.trans (List.prefix_append _ _)
      obtain ⟨hdot, hdotdot, hreal, hlink⟩ := counts_of_component t cur c
      rw [walkWith] at h
      cases hcomp : t.component cur c with
      | tooLong => simp [hcomp] at h
      | missing => simp [hcomp] at h
      | dots => exact absurd (hdotdot hcomp).symm hc
      | link target => exact absurd (hlink target hcomp) (hfree _ target hroot')
      | dot =>
          rw [hcomp] at h
          rw [List.filter_cons_of_neg (by simp [hdot hcomp])]
          exact ih hroot hcs h
      | dir =>
          rw [hcomp] at h
          rw [List.filter_cons_of_pos (hreal (Or.inl hcomp)), ih hroot' hcs h, List.append_assoc]
          rfl
      | file =>
          rw [hcomp] at h
          simp only at h
          split_ifs at h with hend
          cases h
          rw [List.filter_cons_of_pos (hreal (Or.inr hcomp)), hend]
          rfl

/-- **What its components name is found**, whatever stands for nothing between them. -/
lemma walk_filter (links : ℕ) {cs : List Bytes} {c content : Bytes} (hc : counts c = true) :
    ∀ {cur : Path}, [46, 46] ∉ cs →
      t.node (cur ++ (cs ++ [c]).filter counts) = some (.file content) →
      t.walk links cur (cs ++ [c]) = .ok (cur ++ (cs ++ [c]).filter counts) := by
  obtain ⟨follow, hwalk⟩ : ∃ follow, t.walk links = t.walkWith follow := by
    cases links <;> exact ⟨_, rfl⟩
  rw [hwalk]
  induction cs with
  | nil =>
      intro cur _ hfile
      rw [List.nil_append, List.filter_cons_of_pos hc, List.filter_nil] at hfile ⊢
      rw [walkWith, component_of_node hfile]
      rfl
  | cons d cs ih =>
      intro cur hdots hfile
      obtain ⟨hd, hcs⟩ : [46, 46] ≠ d ∧ [46, 46] ∉ cs := by simpa using hdots
      rw [List.cons_append] at hfile ⊢
      by_cases hcounts : counts d = true
      · have hrest : (cs ++ [c]).filter counts ≠ [] :=
          List.ne_nil_of_mem (List.mem_filter.mpr ⟨by simp, hc⟩)
        have hsplit : cur ++ d :: (cs ++ [c]).filter counts =
            (cur ++ [d]) ++ (cs ++ [c]).filter counts := by simp
        rw [List.filter_cons_of_pos hcounts, hsplit] at hfile ⊢
        rw [walkWith, component_of_node (node_append hrest hfile)]
        exact ih hcs hfile
      · rw [List.filter_cons_of_neg hcounts] at hfile ⊢
        have hcomp : t.component cur d = .dot := by
          rw [counts_iff] at hcounts
          rcases (by tauto : d = [] ∨ d = [46]) with rfl | rfl <;> rfl
        rw [walkWith, hcomp]
        exact ih hcs hfile

end LinkTree

namespace StorageScanner

variable {t : LinkTree} {overrun : Path → Bytes} {s : StorageScanner} {file : Bytes}

/-! ## What reading accepts -/

/-- The string can name an index, and what its components name below the root is one. -/
structure NamesIndex (s : StorageScanner) (t : LinkTree) (file : Bytes) : Prop where
  text : ¬ Hostile file ∧ extension (filename file) = dotIdx
  short : (s.folder_ ++ splitOn 47 file).string.length < Tree.PATH_MAX
  index : ∃ content h, t.node (s.folder_ ++ (splitOn 47 file).filter LinkTree.counts) =
    some (.file content) ∧ IndexFileReader.IsIndex h content

lemma length_string_filter (p : Path) (keep : Bytes → Bool) :
    (Path.string (p.filter keep)).length ≤ p.string.length := by
  induction p with
  | nil => exact le_rfl
  | cons c p ih =>
      rw [List.filter_cons]
      simp only [Path.string, List.flatMap_cons, List.length_append] at ih ⊢
      split_ifs
      · simp only [List.flatMap_cons, List.length_append]
        omega
      · omega

/-- **Without links, reading accepts every spelling of the path of an index.** -/
lemma resolveIndexPath_linkFree_iff (hfree : t.LinkFree s.folder_) {p : Path} :
    s.resolveIndexPath (t.view overrun) file = some p ↔
      p = s.folder_ ++ (splitOn 47 file).filter LinkTree.counts ∧ s.NamesIndex t file := by
  obtain ⟨dirs, hsplit⟩ := splitOn_eq_filename file
  constructor
  · intro h
    obtain ⟨below, hne, hbelow⟩ := resolveIndexPath_below h
    obtain ⟨htext, hres, -, -, content, hdr, hfile, hindex⟩ := resolveIndexPath_view_iff.mp h
    have hfolder : t.node s.folder_ = some .dir := LinkTree.node_append hne (hbelow ▸ hfile)
    have hdots : [46, 46] ∉ splitOn 47 file := fun h => htext.1 (Or.inr (Or.inl h))
    have hwalk := LinkTree.walk_of_resolve hres (by simp)
    rw [LinkTree.walk_dir LinkTree.MAXSYMLINKS _ hfolder] at hwalk
    have hp := LinkTree.walk_linkFree hfree _ List.prefix_rfl hdots hwalk
    refine ⟨hp, htext, ?_, content, hdr, hp ▸ hfile, hindex⟩
    rw [LinkTree.resolve] at hres
    split_ifs at hres with hlong
    exact not_le.mp hlong
  · rintro ⟨rfl, htext, hshort, content, h, hfile, hindex⟩
    have hcounts := counts_of_extension htext.2
    have hdots : [46, 46] ∉ dirs := fun h => htext.1 (Or.inr (Or.inl (by simp [hsplit, h])))
    have hkept : (splitOn 47 file).filter LinkTree.counts ≠ [] :=
      List.ne_nil_of_mem (List.mem_filter.mpr ⟨by simp [hsplit], hcounts⟩)
    have hfolder : t.node s.folder_ = some .dir := LinkTree.node_append hkept hfile
    have hwalk := LinkTree.walk_dir LinkTree.MAXSYMLINKS (splitOn 47 file) hfolder
    rw [hsplit, LinkTree.walk_filter _ hcounts hdots (hsplit ▸ hfile),
      ← hsplit] at hwalk
    have hlong : ¬ Tree.PATH_MAX ≤
        (s.folder_ ++ (splitOn 47 file).filter LinkTree.counts).string.length := by
      have := length_string_filter (splitOn 47 file) LinkTree.counts
      simp only [Path.string, List.flatMap_append, List.length_append] at this hshort ⊢
      omega
    refine resolveIndexPath_view_iff.mpr ⟨htext, ?_, List.prefix_append _ _, ?_,
      content, h, hfile, hindex⟩
    · rw [LinkTree.resolve, if_neg (not_le.mpr hshort), hwalk]
    · rw [LinkTree.resolve_node (Or.inr ⟨content, hfile⟩), if_neg hlong]

/-! ## What discovery lists -/

/-- The last point in time. -/
def UINT64_MAX : UInt64 := 18446744073709551615

/-- The number of a day that `getStreams(0, UINT64_MAX)` looks at. -/
def IsDay (cal : Calendar) (day : Bytes) : Prop :=
  ∃ n, stoul day = some n ∧ cal.Time2YYYYMMDD 0 ≤ n ∧ n ≤ cal.Time2YYYYMMDD UINT64_MAX

/-- What `getStreams(0, UINT64_MAX)` can list: `day/name.idx` for an index directly inside a
directory whose name is a day. -/
def Listable (cal : Calendar) (s : StorageScanner) (t : LinkTree) (file : Bytes) : Prop :=
  ∃ day name content h, file = day ++ 47 :: name ∧
    t.node (s.folder_ ++ [day]) = some .dir ∧ IsDay cal day ∧
    t.node (s.folder_ ++ [day, name]) = some (.file content) ∧ extension name = dotIdx ∧
    IndexFileReader.IsIndex h content

/-- The components of a string are a day and one more. -/
def SpelledAsListed (cal : Calendar) (file : Bytes) : Prop :=
  ∃ day name, splitOn 47 file = [day, name] ∧ LinkTree.counts day = true ∧ IsDay cal day

/-- A listable string is spelled so. -/
lemma spelledAsListed_of_listable {cal : Calendar} (h : Listable cal s t file) :
    SpelledAsListed cal file := by
  obtain ⟨day, name, content, hdr, rfl, hdir, hday, hfile, -, -⟩ := h
  have hsplit : s.folder_ ++ [day, name] = (s.folder_ ++ [day]) ++ [name] := by simp
  rw [hsplit] at hfile
  obtain ⟨-, hdayname⟩ := LinkTree.node_concat hdir
  obtain ⟨-, hfilename⟩ := LinkTree.node_concat hfile
  refine ⟨day, name, ?_, LinkTree.counts_iff.mpr ⟨hdayname.ne_nil, hdayname.proper.1⟩, hday⟩
  rw [splitOn_append_sep hdayname.slash, splitOn_of_notMem hfilename.slash]

/-- **What can be read is listable exactly when it is spelled as discovery spells it.** -/
lemma accepted_listable_iff (overrun : Path → Bytes) (cal : Calendar)
    (hfree : t.LinkFree s.folder_) :
    ((s.resolveIndexPath (t.view overrun) file ≠ none → Listable cal s t file) ↔
      (s.NamesIndex t file → SpelledAsListed cal file)) := by
  have haccepted : s.resolveIndexPath (t.view overrun) file ≠ none ↔ s.NamesIndex t file := by
    rw [Option.ne_none_iff_exists']
    constructor
    · rintro ⟨p, hp⟩
      exact ((resolveIndexPath_linkFree_iff hfree).mp hp).2
    · intro h
      exact ⟨_, (resolveIndexPath_linkFree_iff hfree).mpr ⟨rfl, h⟩⟩
  rw [haccepted]
  refine ⟨fun hall hnames => ?_, fun hall hnames => ?_⟩
  · exact spelledAsListed_of_listable (hall hnames)
  · obtain ⟨day, name, hsplit, hcounts, hday⟩ := hall hnames
    obtain ⟨⟨-, hext⟩, -, content, h, hfile, hindex⟩ := hnames
    have hname : filename file = name := by rw [filename, hsplit]; rfl
    rw [hname] at hext
    rw [hsplit, List.filter_cons_of_pos hcounts,
      List.filter_cons_of_pos (counts_of_extension hext), List.filter_nil] at hfile
    have hdir : t.node (s.folder_ ++ [day]) = some .dir := by
      refine LinkTree.node_append (List.cons_ne_nil name []) (n := .file content) ?_
      rw [List.append_assoc]
      exact hfile
    refine ⟨day, name, content, h, ?_, hdir, hday, hfile, hext, hindex⟩
    have hjoin := flatten_intersperse_splitOn 47 file
    rw [hsplit] at hjoin
    simpa using hjoin.symm

/-! ## Listed identifiers -/

/-- What one identifier contributes was accepted. -/
lemma mem_streamOf {v : View} {start end_ : UInt64} {day : UInt32} {identifier : Bytes}
    {stream : DataStream} (h : stream ∈ s.streamOf v start end_ day identifier) :
    stream.file = identifier ∧ s.resolveIndexPath v identifier ≠ none := by
  rw [streamOf] at h
  split at h
  · simp at h
  · rename_i index_path hres
    simp only at h
    split_ifs at h
    · rw [List.mem_singleton.mp h]
      exact ⟨rfl, by simp [hres]⟩
    · simp at h

/-- Every stream of a day was found under its identifier. -/
lemma mem_extractStreams {v : View} {path : Path} {start end_ : UInt64} {day : UInt32}
    {names : List Bytes} {stream : DataStream}
    (h : stream ∈ s.extractStreams v path start end_ day names) :
    ∃ name ∈ names, v.look (path ++ [name]) ≠ some .dir ∧ extension name = dotIdx ∧
      s.streamIdentifier v (path ++ [name]) = some stream.file ∧
      s.resolveIndexPath v stream.file ≠ none := by
  induction names with
  | nil => simp [extractStreams] at h
  | cons name names ih =>
      have hlater : stream ∈ s.extractStreams v path start end_ day names →
        ∃ name' ∈ name :: names,
          v.look (path ++ [name']) ≠ some .dir ∧ extension name' = dotIdx ∧
          s.streamIdentifier v (path ++ [name']) = some stream.file ∧
          s.resolveIndexPath v stream.file ≠ none := fun h => by
        obtain ⟨name', hmem, hrest⟩ := ih h
        exact ⟨name', List.mem_cons_of_mem _ hmem, hrest⟩
      rw [extractStreams] at h
      split_ifs at h with hentry
      · split at h
        · simp at h
        · rename_i identifier hid
          rcases List.mem_append.mp h with h | h
          · obtain ⟨rfl, haccepted⟩ := mem_streamOf h
            exact ⟨name, List.mem_cons_self, hentry.1, hentry.2, hid, haccepted⟩
          · exact hlater h
      · exact hlater h

/-- Every stream of a response lies in a day directory. -/
lemma mem_getStreams {cal : Calendar} {v : View} {start end_ : UInt64}
    {response : DataStreamsResponse} (h : s.getStreams cal v start end_ = some response)
    {stream : DataStream} (hmem : stream ∈ response.stream) :
    ∃ day n name, v.look s.folder_ = some .dir ∧ day ∈ v.children s.folder_ ∧
      v.look (s.folder_ ++ [day]) = some .dir ∧ stoul day = some n ∧
      cal.Time2YYYYMMDD start ≤ n ∧ n ≤ cal.Time2YYYYMMDD end_ ∧
      name ∈ v.children (s.folder_ ++ [day]) ∧
      v.look (s.folder_ ++ [day] ++ [name]) ≠ some .dir ∧ extension name = dotIdx ∧
      s.streamIdentifier v (s.folder_ ++ [day] ++ [name]) = some stream.file ∧
      s.resolveIndexPath v stream.file ≠ none := by
  rw [getStreams] at h
  split_ifs at h with hroot
  cases h
  obtain ⟨day, hchild, hmem⟩ := List.mem_flatMap.mp hmem
  rw [streamsOfDay] at hmem
  split_ifs at hmem with hdir
  · split at hmem
    · simp at hmem
    · rename_i n hn
      split_ifs at hmem with hrange
      · obtain ⟨name, hname, hentry⟩ := mem_extractStreams hmem
        exact ⟨day, n, name, hroot, hchild, hdir, hn, hrange.1, hrange.2, hname, hentry⟩
      · simp at hmem
  · simp at hmem

/-! ## Refusals -/

/-- The text for an identifier that is not accepted. -/
def refusal : Bytes := ascii "invalid reader path"

/-- The beginnings of the texts of file errors. -/
def openings : List Bytes :=
  [ascii "File ", ascii "Couldn't open file ", ascii "Couldn't read LogFileHeader from ",
    ascii "Invalid index ", ascii "Couldn't read timestamp from record ",
    ascii "Can't read fixed payload from a variable length file ",
    ascii "Couldn't read fixed record ", ascii "Couldn't read fixed payload ",
    ascii "Can't read offset from a fixed length file ",
    ascii "Couldn't read variable index record ", ascii "Invalid offset ",
    ascii "Couldn't position file ", ascii "Couldn't read ", ascii "Record at "]

/-- No error of a file is worded like a refusal. -/
lemma text_ne_refusal (e : ReadError) : e.text ≠ refusal := by
  have hopening : ∃ opening ∈ openings, opening <+: e.text := by
    cases e <;> simp only [ReadError.text, List.append_assoc] <;>
      exact ⟨_, by simp [openings], List.prefix_append _ _⟩
  obtain ⟨opening, hmem, hprefix⟩ := hopening
  intro h
  rw [h] at hprefix
  have hnone : ∀ opening ∈ openings, ¬ opening <+: refusal := by decide +kernel
  exact hnone opening hmem hprefix

lemma last_error_ne_refusal (r : StreamReader) : r.last_error ≠ refusal := by
  rw [StreamReader.last_error]
  split
  · exact text_ne_refusal _
  · split
    · exact text_ne_refusal _
    · decide +kernel

/-- The loop over the records does not refuse. -/
lemma collect_errors_ne_refusal (start_time end_time : UInt64) (max_size : ℕ) :
    ∀ (remaining idx : ℕ) (reader : StreamReader) (result : DataStreamsResponse),
      result.errors ≠ refusal →
      (collect start_time end_time max_size remaining idx reader result).errors ≠ refusal := by
  intro remaining
  induction remaining with
  | zero => exact fun _ _ _ h => h
  | succ remaining ih =>
      intro idx reader result h
      simp only [collect]
      split_ifs
      · cases (reader.read idx).1 with
        | none => exact ih _ _ _ (last_error_ne_refusal _)
        | some data =>
            simp only
            split_ifs
            · exact ih _ _ _ h
            · exact ih _ _ _ h
      · exact h

/-- **A request is refused for its identifier and nothing else.** -/
lemma getData_refused_iff {v : View} {start_time end_time : UInt64} {start_idx max_size : UInt32} :
    (s.getData v file start_time end_time start_idx max_size).errors = refusal ↔
      s.resolveIndexPath v file = none := by
  have hempty : ([] : Bytes) ≠ refusal := by decide +kernel
  rw [getData]
  cases hres : s.resolveIndexPath v file with
  | none => exact ⟨fun _ => rfl, fun _ => rfl⟩
  | some index_path =>
      simp only
      refine ⟨fun h => absurd h ?_, nofun⟩
      split_ifs
      · exact hempty
      · exact collect_errors_ne_refusal _ _ _ _ _ _ _ hempty
      · exact hempty

/-- **Discovery and reading agree on an identifier exactly when it is spelled as discovery spells it
or names no index.**  What is listed, for whatever time range, is accepted in any case; what is
accepted beyond the listable strings are the other spellings of the path of an index and the paths
of indexes that do not lie directly inside a day. -/
theorem readable_discovered_iff (cal : Calendar) (hfree : t.LinkFree s.folder_)
    (start_time end_time : UInt64) (start_idx max_size : UInt32) :
    (((s.getData (t.view overrun) file start_time end_time start_idx max_size).errors ≠
      refusal →
        Listable cal s t file) ∧
      ∀ start end_ response, s.getStreams cal (t.view overrun) start end_ = some response →
        ∀ stream ∈ response.stream, stream.file = file →
        (s.getData (t.view overrun) file start_time end_time start_idx max_size).errors ≠
          refusal) ↔
      (s.NamesIndex t file → SpelledAsListed cal file) := by
  have haccepted : (s.getData (t.view overrun) file start_time end_time start_idx
    max_size).errors ≠
      refusal ↔ s.resolveIndexPath (t.view overrun) file ≠ none := not_congr getData_refused_iff
  rw [haccepted, ← accepted_listable_iff overrun cal hfree]
  refine ⟨And.left, fun h => ⟨h, ?_⟩⟩
  rintro start end_ response hresponse stream hmem rfl
  obtain ⟨-, -, -, -, -, -, -, -, -, -, -, -, -, h⟩ := mem_getStreams hresponse hmem
  exact h

/-- A storage root with one day in it; the day has an index, and so has the root. -/
def plainTree : LinkTree where
  entries := [([ascii "root"], .dir), ([ascii "root", ascii "20240101"], .dir),
    ([ascii "root", ascii "20240101", ascii "a.idx"],
      .file (StreamWriter.header { folder_ := [], name_ := ascii "a" } 1 kIndexFile).encode),
    ([ascii "root", ascii "top.idx"],
      .file (StreamWriter.header { folder_ := [], name_ := ascii "top" } 1 kIndexFile).encode)]
  nodup := by decide +kernel
  named := by decide +kernel

lemma plainTree_linkFree : plainTree.LinkFree [ascii "root"] := by
  intro p target hroot h
  have hne : p ≠ [] := by
    rintro rfl
    simp at hroot
  rw [LinkTree.node_eq_some_iff hne] at h
  simp [plainTree] at h

/-- An index outside every day can be read, and so can another spelling of the path of the index
that is listed. -/
theorem undiscovered_readable :
    let s : StorageScanner := ⟨[ascii "root"]⟩
    let v := plainTree.view fun _ => []
    plainTree.LinkFree s.folder_ ∧
    ∀ file ∈ [ascii "top.idx", ascii "20240101/.//a.idx"],
      (s.getData v file 0 UINT64_MAX 0 10).errors = [] ∧
        ∀ cal, ¬ Listable cal s plainTree file := by
  intro s v
  have hread : ∀ file ∈ [ascii "top.idx", ascii "20240101/.//a.idx"],
      (s.getData v file 0 UINT64_MAX 0 10).errors = [] := by decide +kernel
  have hlength : ∀ file ∈ [ascii "top.idx", ascii "20240101/.//a.idx"],
      (splitOn 47 file).length ≠ 2 := by decide +kernel
  refine ⟨plainTree_linkFree, fun file hfile => ⟨hread file hfile, fun cal h => ?_⟩⟩
  obtain ⟨day, name, hsplit, -, -⟩ := spelledAsListed_of_listable h
  exact hlength file hfile (congrArg List.length hsplit)

/-- The spelling of the index that is listed, and its use. -/
theorem readable_discovered_plain :
    let s : StorageScanner := ⟨[ascii "root"]⟩
    let v := plainTree.view fun _ => []
    (s.getData v (ascii "20240101/a.idx") 0 UINT64_MAX 0 10).errors ≠ refusal ∧
    Listable Host.january.cal s plainTree (ascii "20240101/a.idx") := by
  intro s v
  have hread : (s.getData v (ascii "20240101/a.idx") 0 UINT64_MAX 0 10).errors ≠ refusal := by
    decide +kernel
  have hspelled : SpelledAsListed Host.january.cal (ascii "20240101/a.idx") :=
    ⟨ascii "20240101", ascii "a.idx", by decide +kernel, by decide +kernel, 20240101,
      by decide +kernel, by decide +kernel, by decide +kernel⟩
  exact ⟨hread, ((readable_discovered_iff Host.january.cal plainTree_linkFree 0 UINT64_MAX 0
    10).mpr fun _ => hspelled).1 hread⟩

end StorageScanner

end Tracebox
