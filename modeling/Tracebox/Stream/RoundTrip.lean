import Tracebox.Stream.Crash

/-!
# Round trip

What one writer put into one pair of files, read back from the whole files.  Every payload and every
record size comes back, and so does every timestamp but one.  `IndexFileReader::timeOf` returns `0`
for an error, so **a record that was written with the timestamp `0` is stored and cannot be read**.

* `FilePair.status_whole` — the stream is healthy as soon as it has a record.
* `round_trip_iff` — all records come back exactly when none has the timestamp `0`.
-/

namespace Tracebox

open Bytes StreamWriter

/-- A stream with records is healthy. -/
lemma FilePair.status_whole {f : FilePair} {w : World} {overrun : Path → Bytes} (hk : f.Kept w)
    (hl : f.Linked w) (hf : f.stream.Fits) (hp : IsIndexPath f.indexPath)
    (hne : f.stream.records ≠ []) :
    (StreamReader.make (w.view (fun _ i => w.content i) overrun) f.indexPath).status_ =
      .kHealthy := by
  have hcount : 0 < f.stream.complete f.stream.index := by
    rw [Stream.complete_index hf]
    exact List.length_pos_iff.mpr hne
  obtain ⟨hholds, -⟩ := StreamReader.make_holds (shows_whole overrun hk hl hp) hp hf hcount
  refine hholds.status.resolve_right ?_
  rintro ⟨h0, hshort⟩
  rw [hk.content_data h0, Stream.length_dataFile h0, Stream.endOffset] at hshort
  omega

/-- **The records of a pair come back exactly when none has the timestamp `0`.**  A writer opens a
stream and writes to it, all successfully, possibly into several pairs of files; `inode` is the
index file of any of these. -/
theorem round_trip_iff {host : Host} {s₀ s s' : StreamWriter} {request : LogRequest}
    {w₀ w w' : World} {out : Outcome} {records : List Record} {log : List (ℕ × Record)}
    {p : Path} {overrun : Path → Bytes} {inode : ℕ}
    (hopen : s₀.openFile host request w₀ = (out, s, w)) (hout : out.positive = true)
    (hrun : s.run host records w = (log, s', w')) (hall : log.map Prod.snd = records)
    (hname : request.channel.length ≤ 31) (hnul : (0 : UInt8) ∉ request.channel)
    (hlen : ∀ r ∈ records, r.data.length < 2 ^ 30)
    (hinode : inode ∈ log.map Prod.fst) (hsize : (w'.content inode).length < 2 ^ 32)
    (hp : w'.tree.lookup p = some (.file inode)) (hidx : IsIndexPath p) :
    let reader := StreamReader.make (w'.view (fun _ i => w'.content i) overrun) p
    let written := Tape.project inode log
    (reader.status_ = .kHealthy ∧ reader.records_cnt = some written.length ∧
      ∀ is : List ℕ, (∀ i ∈ is, i < written.length) →
        (reader.reads is).1 = is.map fun i => (written[i]?).map Record.piece) ↔
    ∀ r ∈ written, r.time_ns ≠ 0 := by
  intro reader written
  obtain ⟨pairs, hb, -, -⟩ := ledger_of_run hopen hout hrun hall hnul hlen
  obtain ⟨e, he, rfl⟩ := List.mem_map.mp hinode
  obtain ⟨f, hf, hfi⟩ := hb.logged e he
  obtain ⟨hc, hs⟩ := hb.named f hf
  have hk := hb.kept f hf
  have hl := hb.linked f hf
  have hrec : f.stream.records = written := by rw [hb.records f hf, hfi]
  obtain rfl : p = f.indexPath := (hl.index p).mp (hfi ▸ hp)
  have hfits : f.stream.Fits := (hb.sound f hf).fits (hc ▸ hname) (hc ▸ hnul) fun _ => by
    rw [← hk.content_index, hfi]
    exact hsize
  have hshows := FilePair.shows_whole (w := w') overrun hk hl hidx
  have hne : f.stream.records ≠ [] := by
    rw [hrec]
    exact List.ne_nil_of_mem (Tape.mem_project.mpr he)
  constructor
  · rintro ⟨-, -, hreads⟩ r hr htime
    obtain ⟨i, hi, hri⟩ := List.mem_iff_getElem.mp hr
    have hread := hreads [i] (by simpa using hi)
    -- the entry is there, but its time stands for an error
    have hvisible : f.stream.visible f.stream.index (w'.content f.data) i = none := by
      rw [StreamReader.visible_eq (hrec ▸ hi), if_neg]
      rintro ⟨-, hne, -⟩
      exact hne (by simpa only [hrec, hri] using htime)
    rw [StreamReader.reads_make hshows hidx hfits, List.map_singleton, List.map_singleton, hvisible,
      List.getElem?_eq_getElem hi] at hread
    simp at hread
  · intro htimes
    refine ⟨FilePair.status_whole hk hl hfits hidx hne, ?_, fun is his => ?_⟩
    · rw [StreamReader.records_cnt_make hshows hidx hfits, Stream.complete_index hfits, hrec]
    · have hwhole := FilePair.reads_whole overrun hk hl hfits hidx id
        (fun i => written[i]?.getD ⟨0, []⟩) is fun i hi => ?_
      · rw [List.map_id] at hwhole
        refine hwhole.trans (List.map_congr_left fun i hi => ?_)
        rw [List.getElem?_eq_getElem (his i hi)]
        rfl
      · have hlt := his i hi
        rw [hrec, id, List.getElem?_eq_getElem hlt, Option.getD_some]
        exact ⟨rfl, htimes _ (List.getElem_mem hlt)⟩

/-- Two records, the second one first. -/
theorem round_trip_sample :
    let reader := StreamReader.make (sampleRun.2.2.view (fun _ i => sampleRun.2.2.content i)
      fun _ => []) samplePath
    reader.status_ = .kHealthy ∧ reader.records_cnt = some 2 ∧ (reader.reads [1, 0]).1 =
      [some ⟨1704067201000000000, [], 0⟩, some ⟨1704067200000000000, [1, 2], 0⟩] := by
  have hiff := @round_trip_iff .january { folder_ := [ascii "r"] } sampleOpened.2.1
    sampleRun.2.1 _ _
    sampleOpened.2.2 sampleRun.2.2 _ _ sampleRun.1 samplePath (fun _ => [])
    sampleOpened.2.1.indexInode rfl sampleOpened_positive rfl sampleRun_log sample_channel.1
    sample_channel.2 (by decide) (by rw [sampleRun_made.1, sampleOpened_made.2.1]; decide)
    sampleRun_size sampleRun_lookup sample_isIndexPath
  have hwritten : Tape.project sampleOpened.2.1.indexInode sampleRun.1 =
      [⟨1704067200000000000, [1, 2]⟩, ⟨1704067201000000000, []⟩] := by
    rw [sampleRun_made.1, sampleOpened_made.2.1]
    rfl
  rw [hwritten] at hiff
  obtain ⟨hstatus, hcount, hreads⟩ := hiff.mpr (by decide)
  exact ⟨hstatus, hcount, hreads [1, 0] (by decide)⟩

/-- The run of one record with the timestamp `0`. -/
def epochRun : List (ℕ × Record) × StreamWriter × World :=
  sampleOpened.2.1.run .january [⟨0, [1, 2]⟩] sampleOpened.2.2

/-- The record is stored, and the stream is healthy and counts it, but it cannot be read. -/
theorem epoch_record_lost :
    let reader := StreamReader.make (epochRun.2.2.view (fun _ i => epochRun.2.2.content i)
      fun _ => []) samplePath
    epochRun.1.map Prod.snd = [⟨0, [1, 2]⟩] ∧ IsIndexPath samplePath ∧
    epochRun.2.2.tree.lookup samplePath = some (.file sampleOpened.2.1.indexInode) ∧
    reader.status_ = .kHealthy ∧ reader.records_cnt = some 1 ∧ (reader.read 0).1 = none := by
  decide +kernel

end Tracebox
