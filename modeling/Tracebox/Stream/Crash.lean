import Tracebox.Stream.Ledger

/-!
# Crashes, live readers and truncated files

What a reader sees of a stream whose files it does not find complete.

* `reads_cut_of_run` — any pair of a run, with its files **as of two moments of one write
  sequence**, the index not later than the data.  With equal moments this is a crash, with different
  ones a reader that was opened while the writer went on.  Whatever the index shows is there.
* `crash_consistent` — the pair that `openFile` made.
* `truncation_safe` — the files **cut independently of each other**.  A read fails or returns the
  record that was written; nothing else is ever returned.
-/

namespace Tracebox

open Bytes StreamWriter

/-- A stream on disk, looked at with its index as of `p₁` and its data as of `p₂`. -/
lemma FilePair.reads_cut {f : FilePair} {w : World} (overrun : Path → Bytes) {p₁ p₂ : ℕ}
    (hk : f.Kept w) (hl : f.Linked w) (hf : f.stream.Fits) (hp : IsIndexPath f.indexPath)
    (ht : ∀ r ∈ f.stream.records, r.time_ns ≠ 0) (hle : p₁ ≤ p₂) :
    let reader := StreamReader.make
      (w.view (fun q i => w.contentAt (if q = f.indexPath then p₁ else p₂) i) overrun)
        f.indexPath
    let n := f.stream.complete (w.contentAt p₁ f.index)
    reader.records_cnt = some n ∧ n ≤ f.stream.records.length ∧
      ∀ is : List ℕ, (∀ i ∈ is, i < n) →
        (reader.reads is).1 = is.map fun i => (f.stream.records[i]?).map Record.piece := by
  have hne : f.dataPath ≠ f.indexPath := (StreamWriter.indexPath_ne_dataPath f.dir f.leaf).symm
  have hshows := FilePair.shows
    (fun q i => w.contentAt (if q = f.indexPath then p₁ else p₂) i) overrun hl hp
    (by simpa using hk.contentAt_index_prefix p₁)
    (fun h0 => by simpa [hne] using hk.contentAt_data_prefix h0 p₂)
  simp only [if_true, hne, if_false] at hshows
  have hpre := hk.contentAt_index_prefix p₁
  have hn := Stream.complete_le hf hpre
  refine ⟨StreamReader.records_cnt_make hshows hp hf, hn, fun is his => ?_⟩
  rw [StreamReader.reads_make hshows hp hf]
  refine List.map_congr_left fun i hi => ?_
  have hin := his i hi
  have hr : i < f.stream.records.length := hin.trans_le hn
  -- the entry is complete at `p₁`, so its data block is there at `p₁` and at `p₂`
  have hdata : f.stream.record_size = 0 →
      f.stream.offsetOf (i + 1) ≤ (w.contentAt p₂ f.data).length := by
    intro h0
    have hentry := Stream.entry_within hin
    have hwithin := Stream.record_within hk.ne
      (Tape.shown_mono f.owns w.tape hle) hr (by
        have hlen : (f.stream.upTo (i + 1)).index.length = sizeofLogFileHeader +
            (f.stream.upTo (i + 1)).entrySize * (f.stream.upTo (i + 1)).records.length :=
          Stream.length_index fun h => absurd h0 h
        have hcount : (f.stream.upTo (i + 1)).records.length = i + 1 := by
          simp only [Stream.upTo, List.length_take]
          omega
        rw [← hk.contentAt_index, hlen, hcount, Nat.mul_succ, ← Nat.add_assoc]
        exact hentry)
    rw [← hk.contentAt_data h0] at hwithin
    have hdata : (f.stream.upTo (i + 1)).dataFile.length = (f.stream.upTo (i + 1)).endOffset :=
      Stream.length_dataFile h0
    have hle := hwithin.length_le
    rwa [hdata, Stream.endOffset_upTo] at hle
  rw [StreamReader.visible_eq hr, List.getElem?_eq_getElem hr, Option.map_some]
  exact if_pos ⟨hin, ht _ (List.getElem_mem hr), hdata⟩

/-- What opening a stream and a run of successful writes leave behind. -/
lemma ledger_of_run {host : Host} {s₀ s s' : StreamWriter} {request : LogRequest}
    {w₀ w w' : World} {out : Outcome} {records : List Record} {log : List (ℕ × Record)}
    (hopen : s₀.openFile host request w₀ = (out, s, w)) (hout : out.positive = true)
    (hrun : s.run host records w = (log, s', w')) (hall : log.map Prod.snd = records)
    (hnul : (0 : UInt8) ∉ request.channel) (hlen : ∀ r ∈ records, r.data.length < 2 ^ 30) :
    ∃ pairs, Books request.channel request.size w' log pairs ∧
      (∃ f ∈ pairs, f.index = s.indexInode) ∧
      ∀ e ∈ log, s.indexInode ≤ e.1 ∧ e.1 ≤ s'.indexInode := by
  obtain ⟨v, rfl, hv⟩ := Outcome.positive_iff.mp hout
  obtain ⟨pairs₀, hl⟩ := openFile_ledger hopen hv hnul
  obtain ⟨f, hf, hw⟩ := hl.current
  obtain ⟨pairs, hl', -, hbetween, hkeep⟩ := run_ledger hl hnul
    (fun r hr => by have := hlen r hr; unfold UINT32_MAX; omega) hrun hall
  obtain ⟨g, hg, hgi⟩ := hkeep f hf
  exact ⟨pairs, hl'.books, ⟨g, hg, hgi.trans hw.indexInode.symm⟩, hbetween⟩

/-- **Any pair of the run**, also one that a rollover has begun.  With its index file as of `p₁`
and its data file as of `p₂` a reader counts the complete index entries and reads every one of
them exactly. -/
lemma reads_cut_of_run {host : Host} {s₀ s s' : StreamWriter} {request : LogRequest}
    {w₀ w w' : World} {out : Outcome} {records : List Record} {log : List (ℕ × Record)}
    {p : Path} {overrun : Path → Bytes} {inode p₁ p₂ : ℕ}
    (hopen : s₀.openFile host request w₀ = (out, s, w)) (hout : out.positive = true)
    (hrun : s.run host records w = (log, s', w')) (hall : log.map Prod.snd = records)
    (hname : request.channel.length ≤ 31) (hnul : (0 : UInt8) ∉ request.channel)
    (htime : ∀ r ∈ records, r.time_ns ≠ 0) (hlen : ∀ r ∈ records, r.data.length < 2 ^ 30)
    (hinode : inode = s.indexInode ∨ inode ∈ log.map Prod.fst)
    (hsize : (w'.content inode).length < 2 ^ 32) (hp : w'.tree.lookup p = some (.file inode))
    (hidx : IsIndexPath p) (hle : p₁ ≤ p₂) :
    let reader := StreamReader.make
      (w'.view (fun q i => w'.contentAt (if q = p then p₁ else p₂) i) overrun) p
    let n := ((w'.contentAt p₁ inode).length - sizeofLogFileHeader) /
      (if request.size = 0 then 12 else 8 + request.size.toNat)
    reader.records_cnt = some n ∧ n ≤ (Tape.project inode log).length ∧
      ∀ is : List ℕ, (∀ i ∈ is, i < n) → (reader.reads is).1 =
        is.map fun i => ((Tape.project inode log)[i]?).map Record.piece := by
  obtain ⟨pairs, hb, hfirst, -⟩ := ledger_of_run hopen hout hrun hall hnul hlen
  obtain ⟨f, hf, rfl⟩ : ∃ f ∈ pairs, f.index = inode := by
    rcases hinode with rfl | hi
    · exact hfirst
    · obtain ⟨e, he, rfl⟩ := List.mem_map.mp hi
      exact hb.logged e he
  obtain ⟨hc, hs⟩ := hb.named f hf
  have hk := hb.kept f hf
  obtain rfl : p = f.indexPath := ((hb.linked f hf).index p).mp hp
  have hfits : f.stream.Fits := (hb.sound f hf).fits (hc ▸ hname) (hc ▸ hnul) fun _ => by
    rw [← hk.content_index]
    exact hsize
  have htimes : ∀ r ∈ f.stream.records, r.time_ns ≠ 0 := fun r hr => by
    rw [hb.records f hf] at hr
    exact htime r (hall ▸ List.mem_map_of_mem (Tape.mem_project.mp hr))
  have hcut := FilePair.reads_cut overrun hk (hb.linked f hf) hfits hidx htimes hle
  rw [hb.records f hf, Stream.complete, Stream.entrySize, hs] at hcut
  exact hcut

/-- **Ordered crash and live-reader consistency.**  A writer opens a stream and writes records into
one pair of files, all of them successfully.  A reader that sees the index file as of `p₁` and the
data file as of `p₂` counts the complete index entries and reads every one of them exactly, in
whatever order and however often it is asked. -/
theorem crash_consistent {host : Host} {s₀ s s' : StreamWriter} {request : LogRequest}
    {w₀ w w' : World} {out : Outcome} {records : List Record} {log : List (ℕ × Record)}
    {p : Path} {overrun : Path → Bytes} {p₁ p₂ : ℕ}
    (hopen : s₀.openFile host request w₀ = (out, s, w)) (hout : out.positive = true)
    (hrun : s.run host records w = (log, s', w')) (hall : log.map Prod.snd = records)
    (hone : s'.index_ = s.index_)
    (hname : request.channel.length ≤ 31) (hnul : (0 : UInt8) ∉ request.channel)
    (htime : ∀ r ∈ records, r.time_ns ≠ 0) (hlen : ∀ r ∈ records, r.data.length < 2 ^ 30)
    (hsize : (w'.content s.indexInode).length < 2 ^ 32)
    (hp : w'.tree.lookup p = some (.file s.indexInode)) (hidx : IsIndexPath p)
    (hle : p₁ ≤ p₂) :
    let reader := StreamReader.make
      (w'.view (fun q i => w'.contentAt (if q = p then p₁ else p₂) i) overrun) p
    let n := ((w'.contentAt p₁ s.indexInode).length - sizeofLogFileHeader) /
      (if request.size = 0 then 12 else 8 + request.size.toNat)
    reader.records_cnt = some n ∧ n ≤ records.length ∧
      ∀ is : List ℕ, (∀ i ∈ is, i < n) →
        (reader.reads is).1 = is.map fun i => (records[i]?).map Record.piece := by
  obtain ⟨-, -, -, hbetween⟩ := ledger_of_run hopen hout hrun hall hnul hlen
  -- the last index file of the run is the first, so the log has no other
  have hone' : s'.indexInode = s.indexInode := by simp only [indexInode, hone]
  have hrecords : Tape.project s.indexInode log = records := by
    rw [Tape.project_eq_map, hall]
    intro e he
    have := hbetween e he
    omega
  have hcut := @reads_cut_of_run _ _ _ _ _ _ _ _ _ _ _ p overrun _ p₁ p₂ hopen hout
    hrun hall hname
    hnul htime hlen (.inl rfl) hsize hp hidx hle
  rwa [hrecords] at hcut

/-- A stream of variable-size records that was just opened in an empty directory. -/
def sampleOpened : Outcome × StreamWriter × World :=
  ({ folder_ := [ascii "r"] } : StreamWriter).openFile .january
    { channel := ascii "a", size := 0, data := [], time_ns := 1704067200000000000 }
    (.bare [ascii "r"])

/-- Two records written to it. -/
def sampleRun : List (ℕ × Record) × StreamWriter × World :=
  sampleOpened.2.1.run .january [⟨1704067200000000000, [1, 2]⟩, ⟨1704067201000000000, []⟩]
    sampleOpened.2.2

/-- The index file of the example. -/
def samplePath : Path := [ascii "r", ascii "000000_a_0.idx"]

lemma sample_channel : (ascii "a").length ≤ 31 ∧ (0 : UInt8) ∉ ascii "a" := by decide +kernel

lemma sample_isIndexPath : IsIndexPath samplePath := by decide +kernel

lemma sampleOpened_made : sampleOpened.1 = .ret 98 ∧ sampleOpened.2.1.indexInode = 0 ∧
    sampleOpened.2.1.record_size_ = 0 ∧
    sampleOpened.2.2.tree.lookup samplePath = some (.file 0) := by
  decide +kernel

lemma sampleOpened_positive : sampleOpened.1.positive = true := by
  rw [sampleOpened_made.1]
  rfl

/-- Both records are in the first pair of files. -/
lemma sampleRun_made :
    sampleRun.1 = [(0, ⟨1704067200000000000, [1, 2]⟩), (0, ⟨1704067201000000000, []⟩)] ∧
    sampleRun.2.1.index_ = sampleOpened.2.1.index_ ∧
    sampleRun.2.2.tree.entries = sampleOpened.2.2.tree.entries ∧
    (sampleRun.2.2.content 0).length = 73 ∧ (sampleRun.2.2.content 1).length = 75 := by
  decide +kernel

lemma sampleRun_log : sampleRun.1.map Prod.snd =
    [⟨1704067200000000000, [1, 2]⟩, ⟨1704067201000000000, []⟩] := by
  rw [sampleRun_made.1]
  rfl

lemma sampleRun_lookup : sampleRun.2.2.tree.lookup samplePath =
    some (.file sampleOpened.2.1.indexInode) := by
  rw [Tree.lookup, sampleRun_made.2.2.1, sampleOpened_made.2.1]
  exact sampleOpened_made.2.2.2

lemma sampleRun_size : (sampleRun.2.2.content sampleOpened.2.1.indexInode).length < 2 ^ 32 := by
  rw [sampleOpened_made.2.1, sampleRun_made.2.2.2.1]
  decide

/-- A reader that took the index after 126 bytes, in the middle of the second record, and the data
after 140. -/
theorem crash_consistent_sample :
    let reader := StreamReader.make (sampleRun.2.2.view (fun q i =>
      sampleRun.2.2.contentAt (if q = samplePath then 126 else 140) i) fun _ => []) samplePath
    reader.records_cnt = some 1 ∧ (reader.reads [0]).1 =
      [some ⟨1704067200000000000, [1, 2], 0⟩] := by
  have h := @crash_consistent .january { folder_ := [ascii "r"] } sampleOpened.2.1 sampleRun.2.1 _ _
    sampleOpened.2.2 sampleRun.2.2 _ _ sampleRun.1 samplePath (fun _ => []) 126 140 rfl
    sampleOpened_positive rfl sampleRun_log sampleRun_made.2.1 sample_channel.1 sample_channel.2
    (by decide) (by decide) sampleRun_size sampleRun_lookup sample_isIndexPath (by decide)
  have hn : ((sampleRun.2.2.contentAt 126 sampleOpened.2.1.indexInode).length -
      sizeofLogFileHeader) / (if (0 : UInt32) = 0 then 12 else 8 + (0 : UInt32).toNat) = 1 := by
    decide +kernel
  dsimp only at h
  rw [hn] at h
  exact ⟨h.1, h.2.2 [0] (by simp)⟩

/-- **Independent truncation never yields a false record.**  A writer opens a stream of
variable-size records and writes to it, all successfully, possibly into several pairs of files.  Of
any of these pairs the index file is cut at `m` and the data file at `n`.  Every read of the
truncated pair fails or returns the record that was written at that position of its index. -/
theorem truncation_safe {host : Host} {s₀ s s' : StreamWriter} {request : LogRequest}
    {w₀ w w' : World} {out : Outcome} {records : List Record} {log : List (ℕ × Record)}
    {p : Path} {overrun : Path → Bytes} {inode m n : ℕ}
    (hopen : s₀.openFile host request w₀ = (out, s, w)) (hout : out.positive = true)
    (hvar : request.size = 0)
    (hrun : s.run host records w = (log, s', w')) (hall : log.map Prod.snd = records)
    (hname : request.channel.length ≤ 31) (hnul : (0 : UInt8) ∉ request.channel)
    (hlen : ∀ r ∈ records, r.data.length < 2 ^ 30)
    (hinode : inode = s.indexInode ∨ inode ∈ log.map Prod.fst)
    (hp : w'.tree.lookup p = some (.file inode)) (hidx : IsIndexPath p) (is : List ℕ) :
    let reader := StreamReader.make
      (w'.view (fun q i => (w'.content i).take (if q = p then m else n)) overrun) p
    List.Forall₂ (fun i o => o = none ∨
      ∃ r, (Tape.project inode log)[i]? = some r ∧ o = some r.piece) is
        (reader.reads is).1 := by
  obtain ⟨pairs, hb, hfirst, -⟩ := ledger_of_run hopen hout hrun hall hnul hlen
  obtain ⟨f, hf, rfl⟩ : ∃ f ∈ pairs, f.index = inode := by
    rcases hinode with rfl | hi
    · exact hfirst
    · obtain ⟨e, he, rfl⟩ := List.mem_map.mp hi
      exact hb.logged e he
  obtain ⟨hc, hs⟩ := hb.named f hf
  have hk := hb.kept f hf
  have hl := hb.linked f hf
  have h0 : f.stream.record_size = 0 := hs.trans hvar
  obtain rfl : p = f.indexPath := (hl.index p).mp hp
  have hfits : f.stream.Fits :=
    (hb.sound f hf).fits (hc ▸ hname) (hc ▸ hnul) fun h => absurd h0 h
  have hshows := FilePair.shows
    (fun q i => (w'.content i).take (if q = f.indexPath then m else n)) overrun hl hidx
    (by rw [hk.content_index]; exact List.take_prefix _ _)
    (fun _ => by rw [hk.content_data h0]; exact List.take_prefix _ _)
  intro reader
  rw [StreamReader.reads_make hshows hidx hfits, List.forall₂_map_right_iff, List.forall₂_same]
  intro i _
  rw [← hb.records f hf]
  exact StreamReader.visible_or _ _ _ i

/-- The index is whole and the data file has lost its last three bytes. -/
theorem truncation_safe_sample :
    let reader := StreamReader.make (sampleRun.2.2.view (fun q i =>
      (sampleRun.2.2.content i).take (if q = samplePath then 73 else 72)) fun _ => []) samplePath
    List.Forall₂ (fun i o => o = none ∨
      ∃ r, (Tape.project sampleOpened.2.1.indexInode sampleRun.1)[i]? = some r ∧
        o = some r.piece)
      [1, 0] (reader.reads [1, 0]).1 :=
  @truncation_safe .january { folder_ := [ascii "r"] } sampleOpened.2.1 sampleRun.2.1 _ _
    sampleOpened.2.2 sampleRun.2.2 _ _ sampleRun.1 samplePath (fun _ => []) _ 73 72 rfl
    sampleOpened_positive rfl rfl sampleRun_log sample_channel.1 sample_channel.2 (by decide)
    (Or.inl rfl) sampleRun_lookup sample_isIndexPath [1, 0]

end Tracebox
