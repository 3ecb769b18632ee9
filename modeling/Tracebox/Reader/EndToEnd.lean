import Tracebox.Reader.Addressable
import Tracebox.Reader.Query
import Tracebox.Storage.Catalogue
import Tracebox.Stream.RoundTrip

/-!
# From the writer to the client

What a client finds in a storage root that one backend has filled.  The writing side leaves a
catalogue behind, of the accepted requests and the pairs of files they are in; this module reads it.

* `FilePair.respond_whole` — a pair answers with its records in the range.  With times in order
  the reader's shortcut never hides one (`matchTime_of_mem`).
* `Legible` — what reading relies on, and `Legible.identified`: every index file is found under
  the identifier it is listed with.
* `Legible.streamsOfEntry_told`, `streamsOfDay_told` — what one file and one directory add to a
  listing: the requests of the file, and nothing for a directory that the range leaves out.
* `written_found` — **what was written is what is found**: every accepted request of the range
  once, under a stream of its channel, and each stream in the order of the calls.
-/

namespace Tracebox

open Bytes FilesystemStorageBackend

/-! ## One pair -/

/-- The time of the request is in the range. -/
def LogRequest.within (start end_ : UInt64) (r : LogRequest) : Bool :=
  decide (start ≤ r.time_ns ∧ r.time_ns ≤ end_)

/-- A view of the files as they are. -/
abbrev World.asIs (w : World) (overrun : Path → Bytes) : View :=
  w.view (fun _ i => w.content i) overrun

namespace FilePair

variable {p : FilePair} {w : World} {overrun : Path → Bytes} {start end_ : UInt64}

/-- The reader of the pair. -/
abbrev reader (p : FilePair) (w : World) (overrun : Path → Bytes) : StreamReader :=
  StreamReader.make (w.asIs overrun) p.indexPath

section Whole

variable (hk : p.Kept w) (hl : p.Linked w) (hf : p.stream.Fits) (hp : IsIndexPath p.indexPath)

include hk hl hf hp

/-- A plain reading of all positions gives the records in the range. -/
lemma matching_whole (htimes : ∀ r ∈ p.stream.records, r.time_ns ≠ 0) :
    (p.reader w overrun).matching start end_ 0 p.stream.records.length =
      (p.stream.records.map Record.piece).filter (StreamReader.within start end_) := by
  have hread := reads_whole overrun hk hl hf hp Prod.snd Prod.fst p.stream.records.zipIdx
    fun x hx => by
      have hget := List.mem_zipIdx_iff_getElem?.mp hx
      exact ⟨hget, htimes _ (List.mem_of_getElem? hget)⟩
  rw [List.zipIdx_map_snd] at hread
  have hmap : (p.stream.records.zipIdx.map fun x => some x.1.piece) =
      (p.stream.records.map Record.piece).map some := by
    rw [List.map_map, ← List.zipIdx_map_fst 0 p.stream.records, List.map_map,
      List.zipIdx_map_fst]
    rfl
  have hall : ∀ l : List DataPiece, (l.map some).reduceOption = l := by
    intro l
    induction l with
    | nil => rfl
    | cons d l ih => rw [List.map_cons, List.reduceOption_cons_of_some, ih]
  rw [StreamReader.matching, hread, hmap, hall]

/-- **The reader's shortcut.**  With times in order the range overlaps the first and the last time
as soon as one record is in it. -/
lemma matchTime_of_mem
    (hsorted : p.stream.records.Pairwise fun a b => a.time_ns ≤ b.time_ns) {r : Record}
    (hr : r ∈ p.stream.records) (hstart : start ≤ r.time_ns) (hend : r.time_ns ≤ end_) :
    (p.reader w overrun).matchTime start end_ = true := by
  have hne : p.stream.records ≠ [] := List.ne_nil_of_mem hr
  have hpos := List.length_pos_iff.mpr hne
  have hshows := shows_whole overrun hk hl hp
  have hcount : p.stream.complete p.stream.index = p.stream.records.length :=
    Stream.complete_index hf
  obtain ⟨-, hindex⟩ := StreamReader.make_holds hshows hp hf (by rwa [hcount])
  have h49 : sizeofLogFileHeader ≤ p.stream.index.length := by
    rw [Stream.length_index hf.sized]
    exact Nat.le_add_right _ _
  obtain ⟨hholds, htimes⟩ := IndexFileReader.make_holds hshows.index hf hshows.index_prefix h49
  obtain ⟨hfirst, hlast⟩ := htimes (by rwa [hcount]) hcount.le
  obtain ⟨k, hk', rfl⟩ := List.mem_iff_getElem.mp hr
  have hpair := List.pairwise_iff_getElem.mp hsorted
  have hmono : ∀ i j (hi : i < p.stream.records.length) (hj : j < p.stream.records.length),
      i ≤ j → p.stream.records[i].time_ns ≤ p.stream.records[j].time_ns := by
    intro i j hi hj hij
    rcases hij.eq_or_lt with rfl | hlt
    · exact UInt64.le_refl _
    · exact hpair i j hi hj hlt
  have hfirst' := hmono 0 k hpos hk' (Nat.zero_le k)
  have hlast' := hmono k (p.stream.records.length - 1) hk' (by omega) (by omega)
  rw [StreamReader.matchTime, status_whole hk hl hf hp hne, hindex]
  simp only [decide_true, Bool.true_and, IndexFileReader.matchTime, decide_eq_true_eq]
  refine ⟨?_, UInt64.le_trans hstart hend, ?_, ?_⟩
  · rw [hholds.count, hcount]
    omega
  · rw [hfirst]
    exact UInt64.le_trans hfirst' hend
  · rw [hlast]
    simp only [hcount]
    exact UInt64.le_trans hstart hlast'

/-- A reader that matches a range knows the channel. -/
lemma name_of_matchTime (hmatch : (p.reader w overrun).matchTime start end_ = true) :
    (p.reader w overrun).streamName = some p.stream.channel := by
  have hshows := shows_whole overrun hk hl hp
  rcases Nat.eq_zero_or_pos (p.stream.complete p.stream.index) with hzero | hpos
  · rw [StreamReader.matchTime, (StreamReader.make_empty hshows hp hf hzero).2] at hmatch
    simp at hmatch
  · obtain ⟨hholds, -⟩ := StreamReader.make_holds hshows hp hf hpos
    obtain ⟨index, hindex, hx⟩ := hholds.index
    rw [StreamReader.streamName, hindex, Option.map_some, hx.name hf]

/-- **What a pair answers**: its records in the range. -/
lemma respond_whole (htimes : ∀ r ∈ p.stream.records, r.time_ns ≠ 0)
    (hsorted : p.stream.records.Pairwise fun a b => a.time_ns ≤ b.time_ns) :
    (StorageScanner.respond (p.reader w overrun) start end_ 0 (UInt32.ofNat UINT32_MAX)).data =
      (p.stream.records.map Record.piece).filter (StreamReader.within start end_) := by
  have hcount : (p.reader w overrun).records_cnt.getD 0 = p.stream.records.length := by
    rw [StreamReader.records_cnt_make (shows_whole overrun hk hl hp) hp hf, Option.getD_some,
      Stream.complete_index hf]
  have hmax : (UInt32.ofNat UINT32_MAX).toNat = 2 ^ 32 - 1 := rfl
  have hzero : (0 : UInt32).toNat = 0 := rfl
  rw [StorageScanner.respond_data, hcount, hmax, hzero, Nat.sub_zero,
    matching_whole hk hl hf hp htimes]
  split_ifs with hmatch
  · -- a file has fewer entries than bytes
    refine List.take_of_length_le ((List.length_filter_le _ _).trans ?_)
    have hlen := hf.index_lt
    have hentry := p.stream.entrySize_pos
    rw [Stream.length_index hf.sized] at hlen
    rw [List.length_map]
    have : p.stream.records.length ≤ p.stream.entrySize * p.stream.records.length :=
      Nat.le_mul_of_pos_left _ (by omega)
    unfold sizeofLogFileHeader at hlen
    omega
  · refine (List.filter_eq_nil_iff.mpr fun d hd hin => hmatch ?_).symm
    obtain ⟨r, hr, rfl⟩ := List.mem_map.mp hd
    obtain ⟨hstart, hend⟩ := of_decide_eq_true hin
    exact matchTime_of_mem hk hl hf hp hsorted hr hstart hend

end Whole

end FilePair

/-! ## What is listed -/

namespace StorageScanner

/-- The streams of one entry of a day directory. -/
def streamsOfEntry (s : StorageScanner) (v : View) (path : Path) (start end_ : UInt64)
    (day : UInt32) (name : Bytes) : List DataStream :=
  if v.look (path ++ [name]) ≠ some .dir ∧ extension name = dotIdx then
    (s.streamIdentifier v (path ++ [name])).elim [] (s.streamOf v start end_ day)
  else []

/-- Without exceptions the loop goes through all entries. -/
lemma extractStreams_eq {s : StorageScanner} {v : View} {path : Path} (start end_ : UInt64)
    (day : UInt32) {names : List Bytes}
    (h : ∀ name ∈ names, s.streamIdentifier v (path ++ [name]) ≠
      none) : s.extractStreams v path start end_ day names =
        names.flatMap (s.streamsOfEntry v path start end_ day) := by
  induction names with
  | nil => rfl
  | cons name names ih =>
      have hrest := ih fun c hc => h c (List.mem_cons_of_mem _ hc)
      obtain ⟨identifier, hid⟩ := Option.ne_none_iff_exists'.mp (h name List.mem_cons_self)
      rw [extractStreams, List.flatMap_cons, streamsOfEntry, hid, hrest]
      split_ifs <;> rfl

/-- The streams of a range, each with the records it has there: what a client comes to that asks for
the streams, and then every one of them for all its records. -/
def collected (s : StorageScanner) (cal : Calendar) (v : View) (start end_ : UInt64) :
    Option (List (DataStream × List DataPiece)) :=
  (s.getStreams cal v start end_).map fun response => response.stream.map fun stream =>
    (stream, (s.getData v stream.file start end_ 0 (UInt32.ofNat UINT32_MAX)).data)

end StorageScanner

/-! ## Files and places -/

/-- An extension is the end of the name. -/
lemma extension_suffix (name : Bytes) : extension name <:+ name := by
  simp only [extension]
  split_ifs
  · exact List.nil_suffix
  · exact List.nil_suffix
  · exact List.drop_suffix _ _

/-- The index or data file at a path. -/
def inodeAt (w : World) (q : Path) : Option ℕ :=
  match w.tree.lookup q with
  | some (.file i) => some i
  | _ => none

lemma inodeAt_file {w : World} {q : Path} {i : ℕ} (hq : w.tree.lookup q = some (.file i)) :
    inodeAt w q = some i := by
  rw [inodeAt, hq]

/-- The paths of a day directory's entries, for every entry of the root. -/
def places (w : World) (root : Path) : List Path :=
  (w.tree.children root).flatMap fun c =>
    (w.tree.children (root ++ [c.1])).map fun d => root ++ [c.1] ++ [d.1]

/-- No place comes twice. -/
lemma nodup_places (w : World) (root : Path) : (places w root).Nodup := by
  rw [places, List.nodup_flatMap]
  constructor
  · intro c _
    have hnames := w.tree.nodup_children (root ++ [c.1])
    have hpaths := hnames.map fun a b (hab : root ++ [c.1] ++ [a] = root ++ [c.1] ++ [b]) =>
      List.singleton_inj.mp (List.append_cancel_left hab)
    rwa [List.map_map] at hpaths
  · have hnames := w.tree.nodup_children root
    rw [List.Nodup, List.pairwise_map] at hnames
    refine hnames.imp fun hne q hq hq' => hne ?_
    obtain ⟨d, -, rfl⟩ := List.mem_map.mp hq
    obtain ⟨d', -, heq⟩ := List.mem_map.mp hq'
    have hdir := (List.append_inj' heq rfl).1
    exact (List.singleton_inj.mp (List.append_cancel_left hdir)).symm

/-! ## A catalogue, read -/

/-- What reading relies on: the root has a canonical path, no file below it is too long for a
reader, every request has a time, and those of a channel are in order. -/
structure Legible (host : Host) (root : Path) (w : World) (entries : List (ℕ × LogRequest))
    (pairs : List FilePair) : Prop where
  catalogue : Catalogue host root w entries pairs
  plain : root.Plain
  small : ∀ q i, root <+: q → w.tree.lookup q = some (.file i) → (w.content i).length < 2 ^ 32
  times : ∀ e ∈ entries, e.2.time_ns ≠ 0
  sorted : entries.Pairwise fun a b => a.2.channel = b.2.channel → a.2.time_ns ≤ b.2.time_ns

namespace Legible

variable {host : Host} {root : Path} {w : World} {entries : List (ℕ × LogRequest)}
  {pairs : List FilePair} {p : FilePair} {start end_ : UInt64} {overrun : Path → Bytes}

lemma records (h : Legible host root w entries pairs) (hp : p ∈ pairs) :
    p.stream.records = (Tape.project p.index entries).map LogRequest.record := by
  rw [h.catalogue.shelved.records p hp, ← Tape.project_map]

/-- The requests of a pair have its channel and its day. -/
lemma of_mem_project (h : Legible host root w entries pairs) (hp : p ∈ pairs) {r : LogRequest}
    (hr : r ∈ Tape.project p.index entries) :
    r.channel = p.stream.channel ∧ p.dir = dayDir host root r.time_ns := by
  obtain ⟨p', hp', hi, hc, hd⟩ := h.catalogue.filed _ (Tape.mem_project.mp hr)
  obtain rfl := h.catalogue.shelved.eq_of_index hp' hp hi
  exact ⟨hc.symm, hd⟩

lemma linked (h : Legible host root w entries pairs) (hp : p ∈ pairs) : p.Linked w :=
  h.catalogue.shelved.linked p hp

lemma kept (h : Legible host root w entries pairs) (hp : p ∈ pairs) : p.Kept w :=
  h.catalogue.shelved.kept p hp

lemma below (h : Legible host root w entries pairs) (hp : p ∈ pairs) : root <+: p.dir := by
  obtain ⟨-, time_ns, hd⟩ := h.catalogue.placed p hp
  rw [hd, dayDir]
  exact List.prefix_append _ _

lemma fits (h : Legible host root w entries pairs) (hp : p ∈ pairs) : p.stream.Fits := by
  obtain ⟨hplaced, -⟩ := h.catalogue.placed p hp
  refine (h.catalogue.shelved.sound p hp).fits hplaced.short hplaced.nul fun _ => ?_
  rw [← (h.kept hp).content_index]
  exact h.small p.indexPath _ ((h.below hp).trans (List.prefix_append _ _))
    ((h.linked hp).index _ |>.mpr rfl)

lemma isIndexPath (h : Legible host root w entries pairs) (hp : p ∈ pairs) :
    IsIndexPath p.indexPath := (h.catalogue.placed p hp).1.index

lemma records_times (h : Legible host root w entries pairs) (hp : p ∈ pairs) :
    ∀ r ∈ p.stream.records, r.time_ns ≠ 0 := by
  rw [h.records hp]
  intro r hr
  obtain ⟨request, hmem, rfl⟩ := List.mem_map.mp hr
  exact h.times _ (Tape.mem_project.mp hmem)

/-- The times of a pair are in order. -/
lemma records_sorted (h : Legible host root w entries pairs) (hp : p ∈ pairs) :
    p.stream.records.Pairwise fun a b => a.time_ns ≤ b.time_ns := by
  have hall : (entries.map Prod.snd).Pairwise fun a b => a.channel = b.channel →
      a.time_ns ≤ b.time_ns := List.pairwise_map.mpr h.sorted
  rw [h.records hp, List.pairwise_map]
  refine (hall.sublist (Tape.project_sublist p.index entries)).imp_of_mem fun ha hb hle => ?_
  exact hle ((h.of_mem_project hp ha).1.trans (h.of_mem_project hp hb).1.symm)

/-- **Every index file is found under its identifier.** -/
lemma identified (h : Legible host root w entries pairs) (overrun : Path → Bytes)
    (hp : p ∈ pairs) :
    ∃ identifier, (⟨root⟩ : StorageScanner).streamIdentifier (w.asIs overrun) p.indexPath =
        some identifier ∧
      (⟨root⟩ : StorageScanner).resolveIndexPath (w.asIs overrun) identifier =
        some p.indexPath := by
  obtain ⟨hplaced, time_ns, hdir⟩ := h.catalogue.placed p hp
  obtain ⟨hne, hnul, hback⟩ := hplaced.leaf
  have hlook : (w.asIs overrun).look p.indexPath = some (.file (w.content p.index)) := by
    simp only [World.view, ((h.linked hp).index _).mpr rfl]
  have hpath : p.indexPath =
      root ++ [toDec (host.cal.Time2YYYYMMDD time_ns), p.leaf ++ dotIdx] := by
    rw [FilePair.indexPath, hdir, dayDir, StreamWriter.indexPath, List.append_assoc]
    rfl
  have hday : ∀ b, isDigit b = false → b ∉ toDec (host.cal.Time2YYYYMMDD time_ns) :=
    fun b hb => notMem_toDec hb _
  have hplain : p.indexPath.Plain := by
    intro c hc
    obtain ⟨hc0, hc47⟩ := hplaced.index.canonical c hc
    rw [hpath] at hc
    rcases List.mem_append.mp hc with hc | hc
    · exact h.plain c hc
    · rcases List.mem_pair.mp hc with rfl | rfl
      · refine ⟨hc0, hc47, ?_, ?_, hday 0 (by decide)⟩
        · exact fun heq => hday 46 (by decide) (heq ▸ List.mem_cons_self)
        · exact fun heq => hday 46 (by decide) (heq ▸ List.mem_cons_self)
      · have hext : 3 ≤ dotIdx.length := by
          rw [StreamWriter.dotIdx_eq]
          decide
        have hproper := Tree.proper_append p.leaf hext
        refine ⟨hc0, hc47, hproper.1, hproper.2, fun hm => ?_⟩
        exact (List.mem_append.mp hm).elim hnul StreamWriter.notMem_dotIdx.1
  have hindex : IndexFileReader.IsIndex (p.stream.header kIndexFile) (w.content p.index) := by
    have hlen := (h.fits hp).index_lt
    rw [(h.kept hp).content_index]
    refine ⟨hasHeader_mono (List.prefix_append _ _), le_rfl, ?_, rfl⟩
    rw [Nat.mod_eq_of_lt hlen, Stream.length_index (h.fits hp).sized]
    exact Nat.le_add_right _ _
  refine (StorageScanner.identified_iff h.plain hplain (fun q => rfl) hlook).mpr
    ⟨⟨?_, fun c hc => ?_, ?_⟩, _, hindex⟩
  · rw [FilePair.indexPath, StreamWriter.indexPath, List.dropLast_concat]
    exact h.below hp
  · rw [hpath, List.drop_left] at hc
    rcases List.mem_pair.mp hc with rfl | rfl
    · exact hday 92 (by decide)
    · refine fun hm => (List.mem_append.mp hm).elim hback ?_
      rw [StreamWriter.dotIdx_eq]
      decide
  · rw [FilePair.indexPath, StreamWriter.indexPath, List.getLastD_concat]
    exact extension_append hne

/-- The stream has the channel of the pair, and asked for its records in the range it gives those of
the pair. -/
def Tells (root : Path) (v : View) (start end_ : UInt64) (entries : List (ℕ × LogRequest))
    (p : FilePair) (f : DataStream) : Prop :=
  f.name = p.stream.channel ∧
    ((⟨root⟩ : StorageScanner).getData v f.file start end_ 0 (UInt32.ofNat UINT32_MAX)).data =
      ((Tape.project p.index entries).filter (LogRequest.within start end_)).map
        fun r => r.record.piece

/-- **What a pair contributes** to a listing: its stream, or nothing when it has nothing in the
range. -/
lemma streamOf_cases (h : Legible host root w entries pairs) (start end_ : UInt64)
    (hp : p ∈ pairs)
    {identifier : Bytes} (hres : (⟨root⟩ : StorageScanner).resolveIndexPath (w.asIs overrun)
      identifier = some p.indexPath) (day : UInt32) :
    ((⟨root⟩ : StorageScanner).streamOf (w.asIs overrun) start end_ day identifier = [] ∧
      (Tape.project p.index entries).filter (LogRequest.within start end_) = []) ∨
    ∃ f, (⟨root⟩ : StorageScanner).streamOf (w.asIs overrun) start end_ day
      identifier = [f] ∧ Tells root (w.asIs overrun) start end_ entries p f := by
  have hrecords := h.records hp
  have hfits := h.fits hp
  have hdata := @FilePair.respond_whole p w overrun start end_ (h.kept hp) (h.linked hp) hfits
    (h.isIndexPath hp) (h.records_times hp) (h.records_sorted hp)
  have hpieces : (p.stream.records.map Record.piece).filter (StreamReader.within start end_) =
      ((Tape.project p.index entries).filter (LogRequest.within start end_)).map
        fun r => r.record.piece := by
    rw [hrecords, List.map_map, List.filter_map]
    rfl
  simp only [StorageScanner.streamOf, hres]
  by_cases hmatch : (p.reader w overrun).matchTime start end_ = true
  · right
    refine ⟨_, if_pos hmatch, ?_, ?_⟩
    · have hname := FilePair.name_of_matchTime (h.kept hp) (h.linked hp) hfits (h.isIndexPath hp)
        hmatch
      rw [StorageScanner.describe, hname, Option.getD_some]
    · change ((⟨root⟩ : StorageScanner).getData (w.asIs overrun) identifier start
        end_ 0 _).data = _
      rw [StorageScanner.getData_of_some hres, hdata, hpieces]
  · left
    refine ⟨if_neg hmatch, ?_⟩
    rw [StorageScanner.respond_data, if_neg hmatch, hpieces] at hdata
    exact List.map_eq_nil_iff.mp hdata.symm

/-- The records of a stream under the stream's name. -/
def labelled (root : Path) (v : View) (start end_ : UInt64) (f : DataStream) :
    List (Bytes × DataPiece) :=
  ((⟨root⟩ : StorageScanner).getData v f.file start end_ 0 (UInt32.ofNat UINT32_MAX)).data.map
    fun d => (f.name, d)

/-- The requests in the range that went to an index file. -/
def share (start end_ : UInt64) (entries : List (ℕ × LogRequest)) (i : ℕ) :
    List (Bytes × DataPiece) :=
  ((Tape.project i entries).filter (LogRequest.within start end_)).map
    fun r => (r.channel, r.record.piece)

lemma share_eq_nil {i : ℕ} (h : ∀ r, (i, r) ∈ entries → r.within start end_ = false) :
    share start end_ entries i = [] := by
  rw [share, List.map_eq_nil_iff, List.filter_eq_nil_iff]
  intro r hr
  simp [h r (Tape.mem_project.mp hr)]

/-- A stream that is told has the requests of its pair, under their own channel. -/
lemma labelled_eq (h : Legible host root w entries pairs) (hp : p ∈ pairs) {f : DataStream}
    (hf : Tells root (w.asIs overrun) start end_ entries p f) :
    labelled root (w.asIs overrun) start end_ f = share start end_ entries p.index := by
  obtain ⟨hname, hdata⟩ := hf
  rw [labelled, share, hdata, List.map_map]
  refine List.map_congr_left fun r hr => ?_
  rw [Function.comp_apply, hname, (h.of_mem_project hp (List.mem_of_mem_filter hr)).1]

/-- **One entry of a directory** below the root: the streams it adds to a listing are told, and
together they have the requests of its file. -/
lemma streamsOfEntry_told (h : Legible host root w entries pairs) (overrun : Path → Bytes)
    (start end_ : UInt64) {dir : Path} {name : Bytes} (hroot : root <+: dir) (day : UInt32)
    {n : Node} (hn : w.tree.lookup (dir ++ [name]) = some n) :
    let streams :=
      (⟨root⟩ : StorageScanner).streamsOfEntry (w.asIs overrun) dir start end_ day name
    (∀ f ∈ streams, ∃ p ∈ pairs, Tells root (w.asIs overrun) start end_ entries p f) ∧
      streams.flatMap (labelled root (w.asIs overrun) start end_) =
        (inodeAt w (dir ++ [name])).toList.flatMap (share start end_ entries) := by
  intro streams
  cases n with
  | dir =>
      have hnil : streams = [] := if_neg fun hentry => hentry.1 (by simp only [World.view, hn])
      rw [hnil, inodeAt, hn]
      exact ⟨by simp, rfl⟩
  | file i =>
      have hlook : (w.asIs overrun).look (dir ++ [name]) ≠ some .dir := by
        simp only [World.view, hn]
        exact fun heq => by cases heq
      rw [inodeAt_file hn, Option.toList_some, List.flatMap_singleton]
      obtain ⟨p, hp, hq | hq⟩ := h.catalogue.covered _ i
        (hroot.trans (List.prefix_append _ _)) hn
      · -- the index file of a pair
        have hi := ((h.linked hp).index _).mpr hq
        rw [hn, Option.some.injEq, Node.file.injEq] at hi
        obtain ⟨identifier, hid, hres⟩ := h.identified overrun hp
        have hname : name = p.leaf ++ dotIdx :=
          List.singleton_inj.mp (List.append_inj' hq rfl).2
        have hext : extension name = dotIdx := by
          rw [hname]
          exact extension_append (h.catalogue.placed p hp).1.leaf.1
        have hstreams : streams =
            (⟨root⟩ : StorageScanner).streamOf (w.asIs overrun) start end_ day identifier := by
          change StorageScanner.streamsOfEntry _ _ _ _ _ _ _ = _
          rw [StorageScanner.streamsOfEntry, if_pos ⟨hlook, hext⟩, hq, hid]
          rfl
        rw [hstreams, hi]
        rcases h.streamOf_cases start end_ hp hres day with
          ⟨hnil, hnone⟩ | ⟨f, hf, htells⟩
        · rw [hnil, share, hnone]
          exact ⟨by simp, rfl⟩
        · rw [hf, List.flatMap_singleton, h.labelled_eq hp htells]
          refine ⟨fun g hg => ?_, rfl⟩
          rw [List.mem_singleton.mp hg]
          exact ⟨p, hp, htells⟩
      · -- a data file has another extension, and no request went to it as an index
        have hname : name = p.leaf ++ dotData :=
          List.singleton_inj.mp (List.append_inj' hq rfl).2
        have hext : extension name ≠ dotIdx := by
          intro heq
          obtain ⟨xs, hxs⟩ := extension_suffix name
          rw [heq, hname] at hxs
          exact StreamWriter.append_dotIdx_ne _ _ hxs
        have hnil : streams = [] := if_neg fun hentry => hext hentry.2
        rw [hnil, share_eq_nil]
        · exact ⟨by simp, rfl⟩
        · intro r hr
          obtain ⟨p', hp', rfl, -⟩ := h.catalogue.filed _ hr
          have hpath := ((h.linked hp').index _).mp hn
          exact absurd (List.singleton_inj.mp (List.append_inj' (hpath.symm.trans hq) rfl).2)
            (StreamWriter.append_dotIdx_ne _ _)

/-- **One entry of the root**: the streams it adds to a listing are told, and together they have the
requests of the files in it.  A directory that the range leaves out has none in the range. -/
lemma streamsOfDay_told (h : Legible host root w entries pairs)
    (hmono : ∀ s t, s ≤ t → host.cal.Time2YYYYMMDD s ≤ host.cal.Time2YYYYMMDD t)
    (overrun : Path → Bytes) (start end_ : UInt64) (name : Bytes) :
    let streams :=
      (⟨root⟩ : StorageScanner).streamsOfDay host.cal (w.asIs overrun) start end_ name
    (∀ f ∈ streams, ∃ p ∈ pairs, Tells root (w.asIs overrun) start end_ entries p f) ∧
      streams.flatMap (labelled root (w.asIs overrun) start end_) =
        (w.tree.children (root ++ [name])).flatMap fun d =>
          (inodeAt w (root ++ [name] ++ [d.1])).toList.flatMap (share start end_ entries) := by
  intro streams
  have hlook : (w.asIs overrun).look (root ++ [name]) = some .dir ↔
      w.tree.lookup (root ++ [name]) = some .dir := by
    simp only [World.view]
    cases w.tree.lookup (root ++ [name]) with
    | none => simp
    | some n => cases n <;> simp
  by_cases hin : w.tree.lookup (root ++ [name]) = some .dir ∧ ∃ day, stoul name = some day ∧
      host.cal.Time2YYYYMMDD start ≤ day ∧ day ≤ host.cal.Time2YYYYMMDD end_
  · obtain ⟨hdir, day, hday, hfirst, hlast⟩ := hin
    have hentries : streams = (w.tree.children (root ++ [name])).flatMap fun d =>
        (⟨root⟩ : StorageScanner).streamsOfEntry (w.asIs overrun) (root ++ [name]) start end_
          (UInt32.ofNat day) d.1 := by
      change StorageScanner.streamsOfDay _ _ _ _ _ _ = _
      rw [StorageScanner.streamsOfDay, if_pos (hlook.mpr hdir), hday]
      simp only [hfirst, hlast, and_self, if_true]
      rw [StorageScanner.extractStreams_eq]
      · exact List.flatMap_map _ _ _
      · intro c _
        simp [StorageScanner.streamIdentifier, World.view]
    have hone : ∀ d ∈ w.tree.children (root ++ [name]), _ := fun d hd =>
      h.streamsOfEntry_told overrun start end_ (List.prefix_append root [name]) (UInt32.ofNat day)
        (Tree.mem_children.mp hd)
    rw [hentries]
    refine ⟨fun f hf => ?_, ?_⟩
    · obtain ⟨d, hd, hf⟩ := List.mem_flatMap.mp hf
      exact (hone d hd).1 f hf
    · rw [List.flatMap_assoc]
      exact List.flatMap_congr fun d hd => (hone d hd).2
  · have hnil : streams = [] := by
      change StorageScanner.streamsOfDay _ _ _ _ _ _ = _
      rw [StorageScanner.streamsOfDay]
      split_ifs with hdir
      · split
        · rfl
        · rename_i day hday
          exact if_neg fun hrange => hin ⟨hlook.mp hdir, day, hday, hrange⟩
      · rfl
    rw [hnil]
    refine ⟨by simp, (List.flatMap_eq_nil_iff.mpr fun d _ => ?_).symm⟩
    cases hi : inodeAt w (root ++ [name] ++ [d.1]) with
    | none => rfl
    | some i =>
        rw [Option.toList_some, List.flatMap_singleton]
        refine share_eq_nil fun r hr => Bool.eq_false_iff.mpr fun hwithin => hin ?_
        obtain ⟨hstart, hend⟩ := of_decide_eq_true hwithin
        obtain ⟨p, hp, rfl, -, hday⟩ := h.catalogue.filed _ hr
        have hfile : w.tree.lookup (root ++ [name] ++ [d.1]) = some (.file p.index) := by
          rw [inodeAt] at hi
          split at hi
          · rename_i j hj
            rw [hj, Option.some.inj hi]
          · cases hi
        have hpath := ((h.linked hp).index _).mp hfile
        have hdir : root ++ [name] = p.dir := (List.append_inj' hpath rfl).1
        have hname : name = toDec (host.cal.Time2YYYYMMDD r.time_ns) := by
          rw [hday, dayDir] at hdir
          exact List.singleton_inj.mp (List.append_cancel_left hdir)
        have hbound := (host.cal.day_bounds r.time_ns).2
        refine ⟨hdir ▸ h.catalogue.there p hp, _, ?_, hmono _ _ hstart, hmono _ _ hend⟩
        rw [hname, stoul_toDec (by omega)]

/-- **Every index file of a pair is at one place.** -/
lemma count_index (h : Legible host root w entries pairs) (hp : p ∈ pairs) :
    ((places w root).filterMap (inodeAt w)).count p.index = 1 := by
  have hfile := ((h.linked hp).index _).mpr rfl
  have hmem : p.indexPath ∈ places w root := by
    obtain ⟨-, time_ns, hdir⟩ := h.catalogue.placed p hp
    have hday := h.catalogue.there p hp
    rw [FilePair.indexPath, StreamWriter.indexPath, hdir, dayDir] at hfile ⊢
    rw [hdir, dayDir] at hday
    refine List.mem_flatMap.mpr ⟨(_, .dir), Tree.mem_children.mpr hday, List.mem_map.mpr ?_⟩
    exact ⟨(_, .file p.index), Tree.mem_children.mpr hfile, rfl⟩
  rw [List.count_filterMap, ← List.count_eq_one_of_mem (nodup_places w root) hmem, List.count]
  refine List.countP_congr fun q _ => ?_
  rw [beq_iff_eq, beq_iff_eq, ← (h.linked hp).index q, inodeAt]
  constructor
  · intro hq
    split at hq
    · rename_i i hi
      rw [hi, Option.some.inj hq]
    · cases hq
  · intro hq
    rw [hq]

/-- **What a client comes to.**  Every stream of the listing is told, and all of them together have
every request in the range once, under its channel. -/
lemma collected_told (h : Legible host root w entries pairs)
    (hmono : ∀ s t, s ≤ t → host.cal.Time2YYYYMMDD s ≤ host.cal.Time2YYYYMMDD t)
    (overrun : Path → Bytes) (start end_ : UInt64) :
    ∃ answer,
      (⟨root⟩ : StorageScanner).collected host.cal (w.asIs overrun) start end_ = some answer ∧
      (answer.flatMap fun x => x.2.map fun d => (x.1.name, d)).Perm
        (((entries.map Prod.snd).filter (LogRequest.within start end_)).map
          fun r => (r.channel, r.record.piece)) ∧
      ∀ x ∈ answer, ∃ p ∈ pairs, x.1.name = p.stream.channel ∧
        x.2 = ((Tape.project p.index entries).filter (LogRequest.within start end_)).map
          fun r => r.record.piece := by
  have hlook : (w.asIs overrun).look root = some .dir := by
    simp only [World.view, h.catalogue.dir]
  have hday := fun name => h.streamsOfDay_told hmono overrun start end_ name
  obtain ⟨streams, hstreams⟩ : ∃ streams, streams = ((w.asIs overrun).children root).flatMap
    ((⟨root⟩ : StorageScanner).streamsOfDay host.cal (w.asIs overrun) start end_) :=
      ⟨_, rfl⟩
  refine ⟨_, by rw [StorageScanner.collected, StorageScanner.getStreams,
    if_pos hlook, ← hstreams, Option.map_some], ?_, fun x hx => ?_⟩
  · -- the requests of all files, then those of all tapes
    have htotal : streams.flatMap (labelled root (w.asIs overrun) start end_) =
        ((places w root).filterMap (inodeAt w)).flatMap (share start end_ entries) := by
      have hnames : (w.asIs overrun).children root = (w.tree.children root).map Prod.fst := rfl
      rw [List.filterMap_eq_flatMap_toList, List.flatMap_assoc, places, List.flatMap_assoc,
        hstreams, List.flatMap_assoc, hnames, List.flatMap_map]
      refine List.flatMap_congr fun c _ => ?_
      rw [List.flatMap_map]
      exact (hday c.1).2
    have hperm : (((places w root).filterMap (inodeAt w)).flatMap
        fun i => Tape.project i entries).Perm (entries.map Prod.snd) :=
      Tape.perm_flatMap_project fun e he => by
        obtain ⟨p, hp, hi, -⟩ := h.catalogue.filed e he
        rw [← hi]
        exact h.count_index hp
    have hmap := (hperm.filter (LogRequest.within start end_)).map
      fun r => (r.channel, r.record.piece)
    rw [List.filter_flatMap, List.map_flatMap] at hmap
    rw [List.flatMap_map]
    exact (List.Perm.of_eq htotal).trans hmap
  · obtain ⟨f, hf, rfl⟩ := List.mem_map.mp hx
    rw [hstreams] at hf
    obtain ⟨name, -, hf⟩ := List.mem_flatMap.mp hf
    exact (hday name).1 f hf

end Legible

variable {host : Host} {root : Path} {w w' : World}

/-- **What was written is what is found.**  From an empty root, after any run and the destruction of
the backend, a client that lists the streams of a range and asks each of them for its records gets
the accepted requests of the range: every one once, under a stream of its channel, and each stream
in the order of the calls. -/
theorem written_found (hn : host.NeverFails) (hplain : root.Plain)
    (hidx : find dotIdx root.string = none) (hempty : EmptyRoot root w)
    (hmono : ∀ s t, s ≤ t → host.cal.Time2YYYYMMDD s ≤ host.cal.Time2YYYYMMDD t)
    {requests accepted : List LogRequest} (hproper : ∀ r ∈ requests, r.Proper)
    (hsorted : requests.Pairwise fun a b => a.channel = b.channel → a.time_ns ≤ b.time_ns)
    {b : FilesystemStorageBackend}
    (hrun : (FilesystemStorageBackend.make root).run host requests w = (accepted, b, w'))
    (hsmall : ∀ q i, root <+: q → (b.destroy host w').tree.lookup q = some (.file i) →
      ((b.destroy host w').content i).length < 2 ^ 32)
    (overrun : Path → Bytes) (start end_ : UInt64) :
    let view := (b.destroy host w').view (fun _ i => (b.destroy host w').content i) overrun
    let asked := accepted.filter fun r => decide (start ≤ r.time_ns ∧ r.time_ns ≤ end_)
    ∃ answer, ((StorageScanner.make view root).bind fun s =>
        s.collected host.cal view start end_) = some answer ∧
      (answer.flatMap fun x => x.2.map fun d => (x.1.name, d)).Perm
        (asked.map fun r => (r.channel, r.record.piece)) ∧
      ∀ x ∈ answer, ∃ rs : List LogRequest, rs.Sublist asked ∧
        (∀ r ∈ rs, r.channel = x.1.name) ∧ x.2 = rs.map fun r => r.record.piece := by
  intro view asked
  have hquiet : root.Quiet := ⟨fun c hc => ⟨(hplain c hc).1, (hplain c hc).2.1⟩, hidx⟩
  obtain ⟨entries, pairs, hentries, hcat⟩ := run_catalogue hn hquiet hempty hproper hrun
  have hsub : (entries.map Prod.snd).Sublist requests := by
    have hruns := run_sublist host requests (FilesystemStorageBackend.make root) w
    rwa [hrun, ← hentries] at hruns
  have hlegible : Legible host root (b.destroy host w') entries pairs :=
    ⟨hcat, hplain, hsmall, fun e he => (hproper _ (hsub.subset (List.mem_map_of_mem he))).time,
      List.pairwise_map.mp (hsorted.sublist hsub)⟩
  have hmake : StorageScanner.make view root = some ⟨root⟩ := by
    change (some (normalize root)).map _ = _
    rw [hplain.normalize]
    rfl
  obtain ⟨answer, hanswer, hperm, htold⟩ := hlegible.collected_told hmono overrun start end_
  rw [hentries] at hperm
  refine ⟨answer, by rw [hmake]; exact hanswer, hperm, fun x hx => ?_⟩
  obtain ⟨p, hp, hname, hdata⟩ := htold x hx
  refine ⟨_, ?_, fun r hr => ?_, hdata⟩
  · have hproject := (Tape.project_sublist p.index entries).filter (LogRequest.within start end_)
    rwa [hentries] at hproject
  · rw [hname]
    exact (hlegible.of_mem_project hp (List.mem_of_mem_filter hr)).1

/-- Three requests, of two channels and two days. -/
def dayRequests : List LogRequest :=
  [⟨ascii "a", 0, [1, 2], 1704067200000000000⟩, ⟨ascii "b", 1, [3], 1704067200000000000⟩,
    ⟨ascii "a", 0, [], 1704153600000000000⟩]

/-- Two channels, two days and three records. -/
theorem written_found_sample :
    let o := (FilesystemStorageBackend.make [ascii "r"]).run .january dayRequests
      (.bare [ascii "r"])
    let stored := o.2.1.destroy .january o.2.2
    let view := stored.view (fun _ i => stored.content i) fun _ => []
    ∃ answer, ((StorageScanner.make view [ascii "r"]).bind fun s =>
        s.collected Host.january.cal view 1704067200000000000 1704153600000000000) = some answer ∧
      (answer.flatMap fun x => x.2.map fun d => (x.1.name, d)).Perm
        [(ascii "a", ⟨1704067200000000000, [1, 2], 0⟩),
          (ascii "b", ⟨1704067200000000000, [3], 0⟩),
          (ascii "a", ⟨1704153600000000000, [], 0⟩)] := by
  intro o stored view
  have hmono : ∀ s t, s ≤ t →
      Host.january.cal.Time2YYYYMMDD s ≤ Host.january.cal.Time2YYYYMMDD t := by
    intro s t hle
    have hle' := UInt64.le_iff_toNat_le.mp hle
    simp only [Calendar.Time2YYYYMMDD, Host.january]
    omega
  obtain ⟨hplain, hidx⟩ : Path.Plain [ascii "r"] ∧
      find dotIdx (Path.string [ascii "r"]) = none := by
    decide +kernel
  have hproper : ∀ r ∈ dayRequests, r.Proper := by
    have hall : ∀ r ∈ dayRequests, r.time_ns ≠ 0 ∧ r.data.length < 2 ^ 30 ∧
        r.channel.length ≤ 31 ∧ (0 : UInt8) ∉ r.channel ∧ (47 : UInt8) ∉ r.channel ∧
        (92 : UInt8) ∉ r.channel ∧ find dotIdx r.channel = none := by decide +kernel
    intro r hr
    obtain ⟨h1, h2, h3, h4, h5, h6, h7⟩ := hall r hr
    exact ⟨h1, h2, h3, h4, h5, h6, h7⟩
  have hsorted : dayRequests.Pairwise fun a b => a.channel = b.channel →
    a.time_ns ≤ b.time_ns := by
    decide +kernel
  have hsmall : ∀ i < stored.inodes, (stored.content i).length < 2 ^ 32 := by decide +kernel
  have hasked : ((o.1.filter fun r => decide (1704067200000000000 ≤ r.time_ns ∧
      r.time_ns ≤ 1704153600000000000)).map fun r => (r.channel, r.record.piece)) =
      [(ascii "a", ⟨1704067200000000000, [1, 2], 0⟩),
        (ascii "b", ⟨1704067200000000000, [3], 0⟩),
          (ascii "a", ⟨1704153600000000000, [], 0⟩)] := by decide +kernel
  obtain ⟨answer, hanswer, hperm, -⟩ := written_found Host.neverFails_january hplain hidx
    emptyRoot_bare hmono hproper hsorted rfl (fun q i _ hq => hsmall i (stored.linked q i hq))
    (fun _ => []) 1704067200000000000 1704153600000000000
  exact ⟨answer, hanswer, hasked ▸ hperm⟩

end Tracebox
