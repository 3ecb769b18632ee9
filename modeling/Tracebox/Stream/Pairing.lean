import Tracebox.Stream.Names
import Tracebox.Stream.Places

/-!
# Index and data files as a pair

The writer puts `.idx` and `.data` behind one base name.  The reader cuts the path of the index file
at the **first** `.idx` in its text, which is the extension when neither the directories nor the
base name have one.

* `dataPath_of_find` — what the reader computes, component by component.
* `finds_beside_iff` — it finds the file beside the index exactly when no `.idx` comes earlier.
* `make_pair` — the status of a stream whose two files are there.
* `paired_iff` — **the reader pairs the files of a new stream as the writer did**, and the stream
  is healthy with its first record, under a condition on the folder, the channel and the file sizes.
-/

namespace Tracebox

open Bytes

lemma dotIdx_ne_nil : dotIdx ≠ [] := by
  rw [StreamWriter.dotIdx_eq]
  exact List.cons_ne_nil _ _

/-! ## The text of a path -/

/-- The extension occurs inside a component. -/
lemma find_string {p : Path} : ∀ {pos : ℕ}, find dotIdx p.string = some pos →
    ∃ (q : Path) (l r : Bytes) (rest : Path), p = q ++ (l ++ (dotIdx ++ r)) :: rest ∧
      pos = (q.string ++ 47 :: l).length := by
  induction p with
  | nil =>
      intro pos h
      rw [Path.string, List.flatMap_nil, find_nil dotIdx_ne_nil] at h
      cases h
  | cons c p ih =>
      intro pos h
      have hseam : ∀ b ∈ (Path.string p).head?, b ∉ dotIdx := by
        intro b hb
        cases p with
        | nil => cases hb
        | cons d p =>
            cases hb
            rw [StreamWriter.dotIdx_eq]
            decide
      have hs : Path.string (c :: p) = (47 :: c) ++ Path.string p := rfl
      rw [hs, find_append dotIdx_ne_nil hseam] at h
      cases hc : find dotIdx (47 :: c) with
      | some i =>
          rw [hc, Option.some_or] at h
          cases h
          obtain ⟨ys, zs, hsplit, rfl⟩ := exists_of_find hc
          cases ys with
          | nil =>
              rw [List.nil_append, StreamWriter.dotIdx_eq] at hsplit
              exact absurd (List.cons.inj hsplit).1 (by decide)
          | cons y l =>
              obtain ⟨rfl, rfl⟩ := List.cons.inj hsplit
              exact ⟨[], l, zs, p, rfl, rfl⟩
      | none =>
          rw [hc, Option.none_or] at h
          obtain ⟨j, hj, rfl⟩ := Option.map_eq_some_iff.mp h
          obtain ⟨q, l, r, rest, rfl, rfl⟩ := ih hj
          refine ⟨c :: q, l, r, rest, rfl, ?_⟩
          have hq : Path.string (c :: q) = (47 :: c) ++ Path.string q := rfl
          rw [hq]
          simp only [List.length_append, List.length_cons]
          omega

variable {p : Path} {pos : ℕ}

/-- **The path the reader computes**: the component with the first `.idx` in it is cut there, and
what comes behind that component is dropped. -/
lemma dataPath_of_find (hp : ∀ c ∈ p, c ≠ [] ∧ (47 : UInt8) ∉ c)
    (h : find dotIdx p.string = some pos) :
    ∃ (q : Path) (l r : Bytes) (rest : Path), p = q ++ (l ++ (dotIdx ++ r)) :: rest ∧
      StreamReader.dataPath p pos = q ++ [l ++ dotData] ∧
        find dotIdx (q ++ [l]).string = none := by
  obtain ⟨q, l, r, rest, rfl, rfl⟩ := find_string h
  refine ⟨q, l, r, rest, rfl, ?_, ?_⟩
  · have hs : Path.string (q ++ (l ++ (dotIdx ++ r)) :: rest) =
        (q.string ++ 47 :: l) ++ (dotIdx ++ r ++ Path.string rest) := by
      simp [Path.string]
    have hdata : ∀ c ∈ q ++ [l ++ dotData], c ≠ [] ∧ (47 : UInt8) ∉ c := by
      intro c hc
      rcases List.mem_append.mp hc with hc | hc
      · exact hp c (List.mem_append_left _ hc)
      · have hl : (47 : UInt8) ∉ l := fun hm =>
          (hp (l ++ (dotIdx ++ r)) (by simp)).2 (List.mem_append_left _ hm)
        rw [List.mem_singleton.mp hc]
        simp [StreamWriter.dotData_eq, hl]
    have hd : (q.string ++ 47 :: l) ++ dotData = Path.string (q ++ [l ++ dotData]) := by
      simp [Path.string]
    rw [StreamReader.dataPath, hs, List.take_left, hd, Path.ofString_string hdata]
  · rw [Path.string_append, Path.string_singleton]
    cases hfind : find dotIdx (q.string ++ 47 :: l) with
    | none => rfl
    | some i =>
        -- an occurrence before the first one
        have hs : Path.string (q ++ (l ++ (dotIdx ++ r)) :: rest) =
            (q.string ++ 47 :: l) ++ (dotIdx ++ r ++ Path.string rest) := by
          simp [Path.string]
        rw [hs, find_append_of_some hfind, Option.some.injEq] at h
        obtain ⟨ys, zs, hys, hlen⟩ := exists_of_find hfind
        have hcount := congrArg List.length hys
        have h4 : dotIdx.length = 4 := by rw [StreamWriter.dotIdx_eq]; rfl
        simp only [List.length_append, h4] at hcount h
        omega

/-- `.idx` does not begin inside of itself. -/
lemma find_append_dotIdx : ∀ {xs : Bytes}, find dotIdx xs = none →
    find dotIdx (xs ++ dotIdx) = some xs.length
  | [], _ => by simp [StreamWriter.dotIdx_eq, find]
  | x :: xs, h => by
      rw [find] at h
      split_ifs at h with hx
      have hseam : ¬ dotIdx <+: x :: (xs ++ dotIdx) := by
        intro hp
        by_cases hlen : dotIdx.length ≤ (x :: xs).length
        · exact hx (List.prefix_of_prefix_length_le hp ⟨dotIdx, rfl⟩ hlen)
        · -- less than four bytes in front of it, and the next one would have to be a dot
          rw [StreamWriter.dotIdx_eq] at hp hlen
          rcases xs with - | ⟨a, - | ⟨b, - | ⟨c, xs⟩⟩⟩
          · simp at hp
          · simp at hp
          · simp at hp
          · exact hlen (by simp)
      rw [List.cons_append, find, if_neg hseam, find_append_dotIdx (Option.map_eq_none_iff.mp h)]
      rfl

/-- An extension behind a name whose text has no `.idx` makes it the path of an index file. -/
lemma isIndexPath_of_find {q : Path} {leaf : Bytes}
    (hp : ∀ c ∈ StreamWriter.indexPath q leaf, c ≠ [] ∧ (47 : UInt8) ∉ c)
    (hnone : find dotIdx (q ++ [leaf]).string = none) :
    IsIndexPath (StreamWriter.indexPath q leaf) := by
  have hs : (StreamWriter.indexPath q leaf).string = (q ++ [leaf]).string ++ dotIdx := by
    simp [Path.string]
  have h4 : dotIdx.length = 4 := by rw [StreamWriter.dotIdx_eq]; rfl
  refine ⟨hp, ?_⟩
  rw [hs, find_append_dotIdx hnone, List.length_append, h4, Nat.add_sub_cancel]

/-- **The reader finds the file beside the index** exactly when no `.idx` comes before the
extension. -/
lemma finds_beside_iff {q : Path} {leaf : Bytes}
    (hp : ∀ c ∈ StreamWriter.indexPath q leaf, c ≠ [] ∧ (47 : UInt8) ∉ c) :
    (∃ pos, find dotIdx (StreamWriter.indexPath q leaf).string = some pos ∧
      StreamReader.dataPath (StreamWriter.indexPath q leaf) pos = StreamWriter.dataPath q leaf) ↔
    find dotIdx (q ++ [leaf]).string = none := by
  constructor
  · rintro ⟨pos, hfind, hdata⟩
    obtain ⟨q', l, r, rest, -, hd, hnone⟩ := dataPath_of_find hp hfind
    obtain ⟨rfl, hlast⟩ := List.append_inj' (hdata.symm.trans hd) rfl
    have hleaf : leaf = l := List.append_cancel_right (List.singleton_inj.mp hlast)
    rwa [hleaf]
  · intro hnone
    have hidx := isIndexPath_of_find hp hnone
    exact ⟨_, hidx.only, besideIndex_indexPath hidx⟩

/-! ## Status -/

/-- **A stream whose two files are there.**  It has as many records as its index has complete
entries, and with at least one it is healthy exactly when the two names agree. -/
lemma make_pair {v : View} {I D : Bytes} {s : StreamWriter} {t t' : UInt64}
    (hfind : find dotIdx p.string = some pos) (hI : v.look p = some (.file I))
    (hD : v.look (StreamReader.dataPath p pos) = some (.file D))
    (hhI : HasHeader I (s.header t kIndexFile)) (hhD : HasHeader D (s.header t' kDataFile))
    (h0 : s.record_size_ = 0) :
    (StreamReader.make v p).records_cnt = some ((s.header t kIndexFile).entryCount I) ∧
      ((s.header t kIndexFile).entryCount I ≠ 0 →
        ((StreamReader.make v p).status_ = .kHealthy ↔
          (if D.length % 2 ^ 32 = 0 then [] else
            cString (nameField s.name_ ++ v.overrun (StreamReader.dataPath p pos))) =
          cString (nameField s.name_ ++ v.overrun p))) := by
  have hcount := IndexFileReader.records_cnt_make hI hhI
  have hregular : StreamReader.is_regular_file v p = true := by
    rw [StreamReader.is_regular_file, hI]
  simp only [StreamReader.make, hregular, not_true_eq_false, if_false, hfind]
  by_cases hzero : (s.header t kIndexFile).entryCount I = 0
  · simp [hcount, hzero, StreamReader.records_cnt]
  · have hsize : 49 ≤ I.length % 2 ^ 32 := by
      by_contra hlt
      refine hzero ?_
      have h49 : (s.header t kIndexFile).header_size_.toNat = 49 := rfl
      rw [LogFileHeader.entryCount, h49, Nat.sub_eq_zero_of_le (by omega), Nat.zero_div]
    have hhead := FileReader.make_of_hasHeader hI hhI (by omega)
    obtain ⟨hopens, hover, -⟩ := IndexFileReader.make_opens hI hhead hsize
    have hfixed : (IndexFileReader.make v p).fixedSize = false := by
      have hsize0 : (s.header t kIndexFile).record_size_ = 0 := h0
      simp [hopens.fixedSize, hsize0]
    have hname : (IndexFileReader.make v p).name = cString (nameField s.name_ ++ v.overrun p) := by
      simp only [FileReader.name, hopens.header, hover]
      rfl
    have hdata : (DataFileReader.make v (StreamReader.dataPath p pos)).name =
        if D.length % 2 ^ 32 = 0 then [] else
          cString (nameField s.name_ ++ v.overrun (StreamReader.dataPath p pos)) :=
      name_of_hasHeader hhD hD
    rw [← hdata, ← hname]
    simp only [hcount, hzero, if_false, hfixed, Bool.false_eq_true, StreamReader.records_cnt,
      Option.map_some, true_and, ne_eq, not_false_eq_true, forall_const]
    by_cases hnames : (DataFileReader.make v (StreamReader.dataPath p pos)).name =
        (IndexFileReader.make v p).name
    · simp [hnames]
    · simp [hnames]

/-! ## New streams -/

/-- **The two files of a stream are taken together**: the data file of the world `w` is under the
path that is computed from `p`, and in the world `w'` a stream with an entry is healthy. -/
@[mk_iff]
structure StreamReader.Pairs (w w' : World) (p : Path) (data : ℕ) : Prop where
  found : ∃ pos, find dotIdx p.string = some pos ∧
    w.tree.lookup (StreamReader.dataPath p pos) = some (.file data)
  healthy : ∀ overrun : Path → Bytes,
    (StreamReader.make (w'.view (fun _ i => w'.content i) overrun) p).records_cnt ≠ some 0 →
    (StreamReader.make (w'.view (fun _ i => w'.content i) overrun) p).status_ = .kHealthy

namespace StreamWriter

variable {host : Host} {s s' : StreamWriter} {time_ns : UInt64} {w w' : World} {q : Path}
  {leaf : Bytes}

/-- A suffix that the loop of `reopenFile` puts behind the name brings no `.idx` with it. -/
lemma find_base_iff {file_name : Bytes} (h0 : (0 : UInt8) ∉ s.name_)
    (hc : Candidate (s.fileName host time_ns) file_name)
    (hplace : indexPath q leaf = s.folder_.lexical (file_name ++ dotIdx)) :
    find dotIdx (s.folder_.lexical (s.fileName host time_ns)).string = none ↔
      find dotIdx (q ++ [leaf]).string = none := by
  obtain ⟨_, q', last, hplaces⟩ := candidate_places host time_ns h0
  have hfind : ∀ {ext : Bytes}, (∀ b, isDigit b = false → b ≠ 95 → b ∉ 95 :: ext) →
      (find dotIdx (q' ++ [last ++ 95 :: ext]).string = none ↔
        find dotIdx (q'.string ++ 47 :: last) = none) := by
    intro ext hext
    have hs : Path.string (q' ++ [last ++ 95 :: ext]) = (q'.string ++ 47 :: last) ++ 95 :: ext := by
      simp [Path.string]
    have hnone : find dotIdx (95 :: ext) = none :=
      find_of_notMem (b := 46) (by simp [dotIdx_eq]) (hext 46 (by decide) (by decide))
    rw [hs, find_append_eq_none_iff dotIdx_ne_nil (by simp [dotIdx_eq]), hnone]
    exact and_iff_left rfl
  obtain ⟨ext₀, -, hext₀, hbase⟩ := hplaces _ (Or.inl rfl)
  obtain ⟨ext, -, hext, hname⟩ := hplaces _ hc
  replace hbase := hbase [] List.not_mem_nil List.not_mem_nil
  rw [List.append_nil, List.append_nil] at hbase
  rw [hname _ notMem_dotIdx.1 notMem_dotIdx.2] at hplace
  obtain ⟨rfl, hlast⟩ := List.append_inj' hplace rfl
  have hleaf : leaf = last ++ 95 :: ext := List.append_cancel_right (List.singleton_inj.mp hlast)
  rw [hbase, hleaf, hfind hext₀, hfind hext]

/-- A data file that was created is where it was created and nowhere else. -/
lemma Opened.lookup_data {records : List Record}
    (h : Opened host s s' w w' time_ns records q leaf) (h0 : s.record_size_ = 0) (p : Path) :
    w'.tree.lookup p = some (.file (w.inodes + 1)) ↔ p = dataPath q leaf := by
  have hold : w.tree.lookup p ≠ some (.file (w.inodes + 1)) := fun hp => by
    have := w.linked p _ hp
    omega
  have hfree := beside_free (.file w.inodes) h.index_free (h.data_free h0)
  rw [h.tree, if_pos h0, Tree.lookup_add _ hfree]
  split_ifs with hp
  · simp [hp]
  · rw [Tree.lookup_add _ h.index_free]
    split_ifs with hq
    · simp [hp]
    · simp [hp, hold]

/-- The bytes of the two files of a new stream begin with its headers. -/
lemma Opened.hasHeader (h : Opened host s s' w w' time_ns [] q leaf) {w'' : World}
    (hg : w'.Grows w'') : HasHeader (w''.content w.inodes) (s.header time_ns kIndexFile) ∧
      (s.record_size_ = 0 →
        HasHeader (w''.content (w.inodes + 1)) (s.header time_ns kDataFile)) := by
  have hk := FilePair.kept_ofOpened h
  have hi : w'.content w.inodes = (s.header time_ns kIndexFile).encode :=
    hk.content_index.trans (by simp [FilePair.ofOpened, stream, Stream.index, Stream.located]; rfl)
  refine ⟨hasHeader_mono (hi ▸ hg.content w.inodes), fun h0 => ?_⟩
  have hd : w'.content (w.inodes + 1) = (s.header time_ns kDataFile).encode := by
    have hsize : (s.stream time_ns []).record_size = 0 := h0
    refine (hk.content_data h0).trans ?_
    simp only [FilePair.ofOpened, Stream.dataFile, Stream.dataHeader, hsize, if_true]
    exact List.append_nil _
  exact hasHeader_mono (hd ▸ hg.content (w.inodes + 1))

/-- A data file that is the index file itself is not what the reader looks for. -/
lemma dataPath_ne {p : Path} {pos : ℕ} (hp : ∀ c ∈ p, c ≠ [] ∧ (47 : UInt8) ∉ c)
    (h : find dotIdx p.string = some pos) : StreamReader.dataPath p pos ≠ p := by
  obtain ⟨q, l, r, rest, rfl, hd, -⟩ := dataPath_of_find hp h
  rw [hd]
  intro heq
  have hcomp := (List.cons.inj (List.append_cancel_left heq)).1
  have hext := List.append_cancel_left hcomp
  rw [dotIdx_eq, dotData_eq] at hext
  simp at hext

/-- **The reader pairs the files of a new stream as the writer did.**  `p` is the path of the index
file, and `w''` any later world in which the files have only got longer. -/
theorem paired_iff {request : LogRequest} {w'' : World} {v : ℤ} {p : Path}
    (h : s.openFile host request w = (.ret v, s', w')) (hv : 0 < v) (h0 : request.size = 0)
    (hfolder : s.folder_.Plain) (hp : w'.tree.lookup p = some (.file s'.indexInode))
    (hg : w'.Grows w'') :
    StreamReader.Pairs w' w'' p s'.dataInode ↔
    (0 : UInt8) ∉ request.channel ∧
      find dotIdx
        (s.folder_.lexical ((s.named request).fileName host request.time_ns)).string = none ∧
      (61 ≤ (w''.content s'.indexInode).length % 2 ^ 32 → request.channel.length ≤ 31 ∧
        (request.channel = [] ∨ (w''.content s'.dataInode).length % 2 ^ 32 ≠ 0)) := by
  obtain ⟨file_name, p', hc⟩ := reopenFile_created h hv
  rw [StreamReader.pairs_iff, hc.indexInode]
  rw [hc.indexInode] at hp
  obtain rfl := (hc.lookup p).mp hp
  have hproper : ∀ c ∈ p, c ≠ [] ∧ (47 : UInt8) ∉ c := fun c hmem => by
    rw [hc.place] at hmem
    exact ⟨(hfolder.lexical _ c hmem).1, (hfolder.lexical _ c hmem).2.1⟩
  by_cases hnul : (0 : UInt8) ∈ request.channel
  · -- both handles are on one file
    obtain ⟨stem, hstem, hcandidates⟩ := candidates host (s.named request) request.time_ns
    obtain ⟨ext, hname, -⟩ := hcandidates _ hc.candidate
    have hsame := hc.same h0 (by
      rw [hname]
      exact List.mem_append_left _ ((hstem 0 (by decide) (by decide)).mpr hnul))
    constructor
    · rintro ⟨⟨pos, hfind, hl⟩, -⟩
      rw [hsame] at hl
      exact absurd ((hc.lookup _).mp hl) (dataPath_ne hproper hfind)
    · rintro ⟨hno, -⟩
      exact absurd hnul hno
  · obtain ⟨-, q, leaf, ho⟩ := reopenFile_pos h hv hnul
    have hpath : p = indexPath q leaf :=
      ((FilePair.linked_ofOpened ho).index p).mp hp
    subst hpath
    have hdata : s'.dataInode = w.inodes + 1 := by
      rw [dataInode, ho.writes.data h0]
      rfl
    have hbeside := finds_beside_iff hproper
    rw [hdata, find_base_iff hnul hc.candidate hc.place, ← hbeside]
    simp only [ho.lookup_data h0, hnul, not_false_eq_true, true_and]
    refine and_congr_right fun hpair => ?_
    obtain ⟨pos, hfind, hpos⟩ := hpair
    obtain ⟨hI, hD⟩ := ho.hasHeader hg
    -- what the reader finds in any view of the later world
    have hview := fun overrun : Path → Bytes =>
      make_pair (v := w''.view (fun _ i => w''.content i) overrun) hfind
        (by simp only [World.view, hg.lookup _ _ hp])
        (by simp only [World.view, hpos, hg.lookup _ _ ((ho.lookup_data h0 _).mpr rfl)])
        hI (hD h0) h0
    have hcount : ((s.named request).header request.time_ns kIndexFile).entryCount
        (w''.content w.inodes) ≠ 0 ↔ 61 ≤ (w''.content w.inodes).length % 2 ^ 32 := by
      have h49 : ((s.named request).header request.time_ns kIndexFile).header_size_.toNat =
        49 := rfl
      have h12 : ((s.named request).header request.time_ns kIndexFile).entrySize = 12 :=
        LogFileHeader.entrySize_of_variable h0
      rw [LogFileHeader.entryCount, h49, h12]
      omega
    have hagree := names_agree_iff hnul ((w''.content (w.inodes + 1)).length % 2 ^ 32 = 0)
    constructor
    · intro hall hlen
      refine hagree.mp fun x y => ?_
      obtain ⟨hcnt, hstatus⟩ := hview fun r => if r = indexPath q leaf then x else y
      have hhealthy := hall _ (by
        rw [hcnt, ne_eq, Option.some.injEq]
        exact hcount.mpr hlen)
      have hnames := (hstatus (hcount.mpr hlen)).mp hhealthy
      simpa only [World.view, if_true, if_neg (dataPath_ne hproper hfind)] using hnames
    · intro hcond overrun hne
      obtain ⟨hcnt, hstatus⟩ := hview overrun
      rw [hcnt, ne_eq, Option.some.injEq] at hne
      exact (hstatus hne).mpr (hagree.mpr (hcond (hcount.mp hne)) _ _)

/-- A stream with one record in it. -/
theorem paired_sample :
    StreamReader.Pairs sampleOpened.2.2 sampleRun.2.2 samplePath sampleOpened.2.1.dataInode := by
  obtain ⟨htape, hinodes⟩ : sampleOpened.2.2.tape <+: sampleRun.2.2.tape ∧
      sampleOpened.2.2.inodes ≤ sampleRun.2.2.inodes := by
    decide +kernel
  have hgrows : sampleOpened.2.2.Grows sampleRun.2.2 := by
    refine ⟨fun p n h => ?_, htape, hinodes⟩
    rw [Tree.lookup, sampleRun_made.2.2.1]
    exact h
  have hlookup : sampleOpened.2.2.tree.lookup samplePath =
      some (.file sampleOpened.2.1.indexInode) := by
    rw [sampleOpened_made.2.1]
    exact sampleOpened_made.2.2.2
  have hplain : Path.Plain [ascii "r"] := by decide +kernel
  have hiff := @paired_iff .january { folder_ := [ascii "r"] } sampleOpened.2.1 (.bare [ascii "r"])
    sampleOpened.2.2 { channel := ascii "a", size := 0, data := [], time_ns := 1704067200000000000 }
    sampleRun.2.2 98 samplePath (Prod.ext sampleOpened_made.1 rfl) (by decide) rfl hplain hlookup
    hgrows
  exact hiff.mpr (by decide +kernel)

/-- **A channel with `.idx` in it.**  The record is written, and the reader looks for a data file
that is not there. -/
theorem idx_in_channel_unpaired :
    let channel := ascii "a.idx"
    let o := channelOpened channel
    let w := (channelRun channel).2.2
    let p := channelPath channel dotIdx
    o.1.positive = true ∧ (channelRun channel).1.map Prod.snd =
      [⟨1704067200000000000, [1]⟩] ∧
    o.2.2.tree.lookup p = some (.file o.2.1.indexInode) ∧
    o.2.2.tree.lookup (channelPath channel dotData) = some (.file o.2.1.dataInode) ∧
    find dotIdx p.string = some 11 ∧
    StreamReader.dataPath p 11 = [ascii "r", ascii "000000_a.data"] ∧
    o.2.2.tree.lookup (StreamReader.dataPath p 11) = none ∧
    (StreamReader.make (w.view (fun _ i => w.content i) fun _ => []) p).status_ =
      .kHeadersDifferent := by
  decide +kernel

end StreamWriter

end Tracebox
