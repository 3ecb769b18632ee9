import Tracebox.Reader.IndexEntries
import Tracebox.Stream.Crash
import Tracebox.Stream.Faults
import Tracebox.Stream.Places
import Tracebox.Stream.Reliable

/-!
# Counted records

A reader counts the records of an index file from its size, and it keeps that size in 32 bits.  The
writer bounds the data file of a stream of variable-size records, and with it the index file; **the
index file of fixed-size records grows without a bound**.

* `Tallied` — a file that is a header and one entry for each of some times.  The reader counts the
  entries, and knows the last time, exactly as long as the file is shorter than `2 ^ 32` bytes
  (`Tallied.agrees_iff`).
* `Tallies` — what a writer keeps up: every index file is tallied, with the times of the records
  that were accepted into it.  `write_tallies` is one call, `run_tallies` a run.
* `counts_agree_iff` — **writer and reader agree on an index file exactly when its entries end
  below `2 ^ 32`**, and `variable_index_bounded`: for records of variable size they do.
* `four_gigabytes_uncounted` — four records of `2 ^ 30` bytes, of which the reader counts none.
-/

namespace Tracebox

open Bytes

/-! ## Files of entries -/

/-- A file that begins with the header and goes on with an entry for each of the times. -/
inductive Tallied (h : LogFileHeader) : Bytes → List UInt64 → Prop
  | header : Tallied h h.encode []
  | entry {I : Bytes} {times : List UInt64} (ht : Tallied h I times) (time_ns : UInt64)
      (payload : Bytes) (hsize : 8 + payload.length = h.entrySize) :
      Tallied h (I ++ (toLE 8 time_ns.toNat ++ payload)) (times ++ [time_ns])

namespace Tallied

variable {h : LogFileHeader} {I : Bytes} {times : List UInt64}

lemma header_prefix (ht : Tallied h I times) : h.encode <+: I := by
  induction ht with
  | header => exact List.prefix_rfl
  | entry _ _ _ _ ih => exact ih.trans (List.prefix_append _ _)

lemma length (ht : Tallied h I times) :
    I.length = sizeofLogFileHeader + times.length * h.entrySize := by
  induction ht with
  | header => simp
  | entry _ _ _ hsize ih =>
      rw [List.length_append, List.length_append, length_toLE, List.length_append,
        List.length_singleton, ih, hsize, Nat.succ_mul, Nat.add_assoc]

lemma hasHeader (ht : Tallied h I times) : HasHeader I h := hasHeader_mono ht.header_prefix

/-- The last entry has the last time. -/
lemma entryTime_last (ht : Tallied h I times) (h49 : h.header_size_.toNat = sizeofLogFileHeader)
    {time_ns : UInt64} (hlast : times.getLast? = some time_ns) :
    h.entryTime I (times.length - 1) = time_ns := by
  cases ht with
  | header => simp at hlast
  | @entry I times ht last payload hsize =>
      rw [List.getLast?_concat, Option.some.injEq] at hlast
      subst hlast
      have hpos : h.header_size_.toNat + ((times ++ [last]).length - 1) * h.entrySize =
          I.length + 0 := by
        rw [List.length_append, List.length_singleton, Nat.add_sub_cancel, ht.length, h49,
          Nat.add_zero]
      have h8 : (toLE 8 last.toNat).length = 8 := length_toLE 8 _
      rw [LogFileHeader.entryTime, hpos, slice_append_right]
      have hslice := slice_prefix (toLE 8 last.toNat) payload
      rw [h8] at hslice
      rw [hslice, ofLE_toLE (by have := last.toNat_lt; omega), UInt64.ofNat_toNat]

/-- **What a reader makes of a tallied index file.**  Both numbers are right as long as 32 bits are
enough for the size of the file, and the count is wrong otherwise. -/
lemma agrees_iff (ht : Tallied h I times) (h49 : h.header_size_.toNat = sizeofLogFileHeader)
    (htype : h.file_type_ = kIndexFile) {v : View} {path : Path}
    (hlook : v.look path = some (.file I)) :
    ((IndexFileReader.make v path).records_cnt_ = times.length ∧
      ∀ time_ns, times.getLast? = some time_ns →
        (IndexFileReader.make v path).end_ns_ = time_ns) ↔
    sizeofLogFileHeader + times.length * h.entrySize < 2 ^ 32 := by
  have hcount := IndexFileReader.records_cnt_make hlook ht.hasHeader
  have hpos := h.entrySize_ge
  rw [hcount]
  constructor
  · rintro ⟨hcnt, -⟩
    by_contra hlarge
    -- a file of `2 ^ 32` bytes or more seems to have lost entries
    have hlen := ht.length
    have hmul : times.length * h.entrySize ≤ I.length % 2 ^ 32 - sizeofLogFileHeader := by
      rw [← hcnt, LogFileHeader.entryCount, h49]
      exact Nat.div_mul_le_self _ _
    unfold sizeofLogFileHeader at *
    omega
  · intro hsmall
    have hmod : I.length % 2 ^ 32 = I.length := Nat.mod_eq_of_lt (by rw [ht.length]; exact hsmall)
    have hcnt : h.entryCount I = times.length := by
      rw [LogFileHeader.entryCount, hmod, ht.length, h49, Nat.add_sub_cancel_left,
        Nat.mul_div_cancel _ (by omega)]
    refine ⟨hcnt, fun time_ns hlast => ?_⟩
    have hne : 0 < times.length := by
      cases times with
      | nil => cases hlast
      | cons t ts => exact Nat.succ_pos _
    have h0 : I.length % 2 ^ 32 ≠ 0 := by
      rw [hmod, ht.length, sizeofLogFileHeader]
      omega
    obtain ⟨-, -, htimes⟩ := IndexFileReader.make_opens hlook
      (FileReader.make_of_hasHeader hlook ht.hasHeader h0) (by rw [hmod, ht.length, h49]; omega)
    rw [(htimes htype (by rw [hcnt]; exact hne)).2, hcnt]
    exact ht.entryTime_last h49 hlast

end Tallied

/-- A tallied index file of a stream with records of this size. -/
def IsTally (size : UInt32) (I : Bytes) (times : List UInt64) : Prop :=
  ∃ h : LogFileHeader, h.header_size_.toNat = sizeofLogFileHeader ∧ h.record_size_ = size ∧
    h.file_type_ = kIndexFile ∧ Tallied h I times

/-- The width of an index entry of a stream with records of this size. -/
def entryWidth (size : UInt32) : ℕ := if size = 0 then 12 else 8 + size.toNat

lemma LogFileHeader.entrySize_eq {h : LogFileHeader} {size : UInt32} (hs : h.record_size_ = size) :
    h.entrySize = entryWidth size := by
  rw [LogFileHeader.entrySize, hs, entryWidth, sizeofFixedRecordIdx, sizeofVariableRecordIdx]
  by_cases h0 : size = 0 <;> simp [h0]

/-- The times of the records that were accepted into an index file. -/
def timesOf (i : ℕ) (log : List (ℕ × Record)) : List UInt64 :=
  (Tape.project i log).map fun r => r.time_ns

lemma timesOf_append (i : ℕ) (log : List (ℕ × Record)) (j : ℕ) (r : Record) :
    timesOf i (log ++ [(j, r)]) = timesOf i log ++ if j = i then [r.time_ns] else [] := by
  rw [timesOf, Tape.project_append, List.map_append, timesOf]
  by_cases hj : j = i <;> simp [Tape.project, hj]

namespace StreamWriter

/-- The index files of the log are tallied. -/
structure Tallies (size : UInt32) (w : World) (log : List (ℕ × Record)) : Prop where
  lt : ∀ e ∈ log, e.1 < w.inodes
  files : ∀ e ∈ log, IsTally size (w.content e.1) (timesOf e.1 log)

/-- So is the one the writer has open, and its data file is not an index file of the log. -/
structure Tallying (s : StreamWriter) (w : World) (log : List (ℕ × Record)) : Prop where
  logged : Tallies s.record_size_ w log
  index : s.index_ = some ⟨s.indexInode, true⟩
  inode_lt : s.indexInode < w.inodes
  file : IsTally s.record_size_ (w.content s.indexInode) (timesOf s.indexInode log)
  data : s.record_size_ = 0 → s.data_ = some ⟨s.dataInode, true⟩ ∧
    s.dataInode < w.inodes ∧
    s.dataInode ≠ s.indexInode ∧ ∀ e ∈ log, e.1 ≠ s.dataInode
  proper : s.record_size_ = 0 → (0 : UInt8) ∉ s.name_

variable {host : Host} {s s' : StreamWriter} {w w' : World} {log : List (ℕ × Record)} {v : ℤ}
  {r : Record} {time_ns : UInt64}

/-! ## What keeps the tallies -/

/-- Appending elsewhere does not change a tally. -/
lemma Tallies.grow {size : UInt32} (h : Tallies size w log) {t : List (ℕ × UInt8)}
    (ht : w'.tape = w.tape ++ t) (hi : w.inodes ≤ w'.inodes)
    (hother : ∀ e ∈ log, ∀ x ∈ t, x.1 ≠ e.1) : Tallies size w' log := by
  refine ⟨fun e he => (h.lt e he).trans_le hi, fun e he => ?_⟩
  have hsame : w'.content e.1 = w.content e.1 := by
    rw [World.content, ht, Tape.project_append, Tape.project_eq_nil (hother e he),
      List.append_nil, World.content]
  rw [hsame]
  exact h.files e he

lemma Tallies.extends_nil {size : UInt32} (h : Tallies size w log) (e : w.Extends w' []) :
    Tallies size w' log :=
  h.grow e.tape e.inodes.ge (by simp)

lemma Tallying.extends_nil (h : s.Tallying w log) (e : w.Extends w' []) : s.Tallying w' log where
  logged := h.logged.extends_nil e
  index := h.index
  inode_lt := by rw [e.inodes]; exact h.inode_lt
  file := by
    rw [e.content, Tape.project_nil, List.append_nil]
    exact h.file
  data h0 := by
    rw [e.inodes]
    exact h.data h0
  proper := h.proper

/-- **One more entry** in the index file that is open. -/
lemma Tallying.append (h : s.Tallying w log) (hindex : s'.index_ = s.index_)
    (hdata : s'.data_ = s.data_) (hsize : s'.record_size_ = s.record_size_)
    (hname : s'.name_ = s.name_) {block payload : Bytes}
    (hlen : 8 + payload.length = entryWidth s.record_size_)
    (hblock : s.record_size_ ≠ 0 → block = [])
    (e : w.Extends w' (Tape.tag s.dataInode block ++
      Tape.tag s.indexInode (toLE 8 r.time_ns.toNat ++ payload))) :
    s'.Tallying w' (log ++ [(s'.indexInode, r)]) := by
  have hi : s'.indexInode = s.indexInode := by rw [indexInode, indexInode, hindex]
  have hd : s'.dataInode = s.dataInode := by rw [dataInode, dataInode, hdata]
  -- the block of the data file is not seen in any index file
  have hunseen : ∀ i, (s.record_size_ = 0 → s.dataInode ≠ i) →
      Tape.project i (Tape.tag s.dataInode block) = [] := by
    intro i hne
    by_cases h0 : s.record_size_ = 0
    · exact Tape.project_tag_of_ne (hne h0) block
    · rw [hblock h0]
      rfl
  have hcurrent : IsTally s.record_size_ (w'.content s.indexInode)
      (timesOf s.indexInode (log ++ [(s.indexInode, r)])) := by
    obtain ⟨hh, h49, hrec, htype, ht⟩ := h.file
    rw [e.content, Tape.project_append, hunseen _ fun h0 => (h.data h0).2.2.1, List.nil_append,
      Tape.project_tag_self, timesOf_append, if_pos rfl]
    exact ⟨hh, h49, hrec, htype, ht.entry r.time_ns payload (by
      rw [LogFileHeader.entrySize_eq hrec]; exact hlen)⟩
  have hfiles : ∀ x ∈ log, IsTally s.record_size_ (w'.content x.1)
      (timesOf x.1 (log ++ [(s.indexInode, r)])) := by
    intro x hx
    by_cases hxi : s.indexInode = x.1
    · rw [← hxi]
      exact hcurrent
    · rw [e.content, Tape.project_append, hunseen _ fun h0 => ((h.data h0).2.2.2 x hx).symm,
        Tape.project_tag_of_ne hxi, List.append_nil, List.append_nil, timesOf_append, if_neg hxi,
        List.append_nil]
      exact h.logged.files x hx
  rw [hi]
  refine ⟨⟨fun x hx => ?_, fun x hx => ?_⟩, ?_, ?_, ?_, fun h0 => ?_, by
    rw [hsize, hname]; exact h.proper⟩
  · rw [e.inodes]
    rcases List.mem_append.mp hx with hx | hx
    · exact h.logged.lt x hx
    · rw [List.mem_singleton.mp hx]
      exact h.inode_lt
  · rw [hsize]
    rcases List.mem_append.mp hx with hx | hx
    · exact hfiles x hx
    · rw [List.mem_singleton.mp hx]
      exact hcurrent
  · rw [hindex, hi]
    exact h.index
  · rw [hi, e.inodes]
    exact h.inode_lt
  · rw [hsize, hi]
    exact hcurrent
  · obtain ⟨h1, h2, h3, h4⟩ := h.data (hsize ▸ h0)
    rw [hdata, hd, hi, e.inodes]
    refine ⟨h1, h2, h3, fun x hx => ?_⟩
    rcases List.mem_append.mp hx with hx | hx
    · exact h4 x hx
    · rw [List.mem_singleton.mp hx]
      exact h3.symm

/-- **A new index file** has no entries yet. -/
lemma Tallies.reopen (h : Tallies s.record_size_ w log)
    (hnul : s.record_size_ = 0 → (0 : UInt8) ∉ s.name_)
    (ho : s.reopenFile host time_ns w = (.ret v, s', w')) (hv : 0 < v) :
    s'.Tallying w' log ∧ s'.record_size_ = s.record_size_ := by
  obtain ⟨file_name, p, hc⟩ := reopenFile_created ho hv
  -- both files are new
  have hnew : s.record_size_ = 0 → s'.dataInode = w.inodes + 1 := by
    intro h0
    obtain ⟨-, q, leaf, hopened⟩ := reopenFile_pos ho hv (hnul h0)
    rw [dataInode, hopened.writes.data h0]
    rfl
  have htail : ∀ i < w.inodes + 1, Tape.project i (if s.record_size_ = 0 then
      Tape.tag s'.dataInode (s.header time_ns kDataFile).encode else []) = [] := by
    intro i hi
    split_ifs with h0
    · exact Tape.project_tag_of_ne (by rw [hnew h0]; omega) _
    · rfl
  have hlt : ∀ e ∈ log, e.1 < w.inodes := h.lt
  have hold : Tallies s.record_size_ w' log := by
    refine h.grow hc.tape hc.inodes.le fun e he x hx => ?_
    have := hlt e he
    rcases List.mem_append.mp hx with hx | hx
    · obtain ⟨b, -, rfl⟩ := List.mem_map.mp hx
      exact Nat.ne_of_gt this
    · split_ifs at hx with h0
      · obtain ⟨b, -, rfl⟩ := List.mem_map.mp hx
        rw [hnew h0]
        omega
      · simp at hx
  have hcontent : w'.content w.inodes = (s.header time_ns kIndexFile).encode := by
    rw [World.content, hc.tape, Tape.project_append, Tape.project_append, Tape.project_tag_self,
      htail _ (Nat.lt_succ_self _), ← World.content, World.content_of_le le_rfl, List.nil_append,
      List.append_nil]
  have htimes : timesOf w.inodes log = [] := by
    rw [timesOf, Tape.project_eq_nil fun e he => Nat.ne_of_lt (hlt e he), List.map_nil]
  refine ⟨⟨?_, ?_, ?_, ?_, fun h0 => ?_, fun h0 => ?_⟩, hc.size⟩
  · rw [hc.size]
    exact hold
  · rw [hc.indexInode]
    exact hc.index
  · rw [hc.indexInode]
    exact hc.inodes
  · rw [hc.indexInode, hc.size, hcontent, htimes]
    exact ⟨s.header time_ns kIndexFile, rfl, rfl, rfl, .header⟩
  · rw [hc.size] at h0
    obtain ⟨hdata, hdlt, -⟩ := hc.data h0
    refine ⟨hdata, hdlt, ?_, fun e he => ?_⟩
    · rw [hnew h0, hc.indexInode]
      omega
    · have := hlt e he
      rw [hnew h0]
      omega
  · rw [hc.size] at h0
    obtain ⟨-, q, leaf, hopened⟩ := reopenFile_pos ho hv (hnul h0)
    rw [hopened.writes.name]
    exact hnul h0

/-! ## Calls -/

/-- A record of variable size goes to the files that are open. -/
lemma Tallying.commit (h : s.Tallying w log) (h0 : s.record_size_ = 0) {flush : Bool} {result : ℤ}
    (hw : s.commitRecord host flush r.time_ns r.data result w = (.ret v, s', w')) (hv : 0 < v) :
    s'.Tallying w' (log ++ [(s'.indexInode, r)]) ∧ s'.record_size_ = s.record_size_ := by
  obtain ⟨hdata, hdlt, -, -⟩ := h.data h0
  have hc := committed_of_pos h.index hdata hw hv
  rw [commitRecord_of_committed h.index hdata hc] at hw
  simp only [Prod.mk.injEq] at hw
  obtain ⟨-, rfl, -⟩ := hw
  have e := @committed_appends host s ⟨s.indexInode, true⟩ ⟨s.dataInode, true⟩
    flush r.time_ns
    r.data w w' h.inode_lt hdlt hc
  refine ⟨h.append rfl rfl rfl rfl ?_ (fun h => absurd h0 h) e, rfl⟩
  rw [entryWidth, if_pos h0, length_toLE]

/-- A record of fixed size goes to the index file. -/
lemma Tallying.fixed (h : s.Tallying w log) (h0 : s.record_size_ ≠ 0) {flush : Bool}
    (hw : s.writeFixed host ⟨s.indexInode, true⟩ flush r.time_ns r.data w = (.ret v, s', w'))
    (hv : 0 < v) : s'.Tallying w' (log ++ [(s'.indexInode, r)]) ∧
      s'.record_size_ = s.record_size_ := by
  have hs : s.Writes (s.stream 0 []) s.indexInode 0 :=
    ⟨rfl, rfl, h.index, fun h => absurd h h0, fun h => absurd h h0⟩
  have hsize : (s.stream 0 []).record_size ≠ 0 := h0
  obtain ⟨-, e, hlen, -, rfl⟩ := writeFixed_pos hs hsize h.inode_lt hw hv
  have hb : blocks (s'.stream 0 []) s'.indexInode 0 r = Tape.tag s'.dataInode [] ++
      Tape.tag s'.indexInode (toLE 8 r.time_ns.toNat ++ r.data) := by
    simp [blocks, Stream.dataBlock, Stream.indexBlock, hsize]
  rw [hb] at e
  refine ⟨h.append rfl rfl rfl rfl ?_ (fun _ => rfl) e, rfl⟩
  rw [entryWidth, if_neg h0, hlen]
  rfl

/-- **A successful call** enters its record in the index file that is open afterwards. -/
lemma write_tallies (h : s.Tallying w log)
    (hw : s.write host r.time_ns r.data w = (.ret v, s', w')) (hv : 0 < v) :
    s'.Tallying w' (log ++ [(s'.indexInode, r)]) ∧ s'.record_size_ = s.record_size_ := by
  have hneg : ¬ (0 : ℤ) < -EINVAL := by decide
  have hlive : live s.index_ = some ⟨s.indexInode, true⟩ := by rw [h.index]; rfl
  have h₀ := h.extends_nil (now_extends host w)
  simp only [write, hlive] at hw
  by_cases h0 : s.record_size_ = 0
  · obtain ⟨hdata, -⟩ := h.data h0
    have hliveData : live s.data_ = some ⟨s.dataInode, true⟩ := by rw [hdata]; rfl
    simp only [h0, ne_eq, not_true_eq_false, if_false, writeVariable, hliveData] at hw
    by_cases hroll : s.rollover r.data = true
    · simp only [hroll, if_true] at hw
      obtain ⟨c, hc⟩ : ∃ c, c = s.closeFile host (w.now host).2 := ⟨_, rfl⟩
      have hcs : c.1 = { s with index_ := c.1.index_, data_ := c.1.data_ } := by rw [hc]; rfl
      have hcsize : c.1.record_size_ = s.record_size_ := by rw [hcs]
      have hcname : c.1.name_ = s.name_ := by rw [hcs]
      have hlogged : Tallies c.1.record_size_ c.2 log := by
        rw [hcsize, hc]
        exact h₀.logged.extends_nil (closeFile_extends s _)
      rw [← hc] at hw
      obtain ⟨⟨out, s₁, w₁⟩, hre⟩ : ∃ x, x = c.1.reopenFile host r.time_ns c.2 :=
        ⟨_, rfl⟩
      rw [← hre] at hw
      cases out with
      | ret ret =>
          by_cases hret : ret ≤ 0
          · simp only [hret, if_true, Prod.mk.injEq, Outcome.ret.injEq] at hw
            omega
          · simp only [hret, if_false] at hw
            obtain ⟨h₁, hsize₁⟩ := hlogged.reopen (by rw [hcsize, hcname]; exact h.proper)
              hre.symm (not_le.mp hret)
            obtain ⟨h₂, hsize₂⟩ := h₁.commit (hsize₁.trans (hcsize.trans h0)) hw hv
            exact ⟨h₂, hsize₂.trans (hsize₁.trans hcsize)⟩
      | thrown => cases hw
      | hangs => cases hw
    · simp only [hroll, Bool.false_eq_true, if_false] at hw
      exact h₀.commit h0 hw hv
  · simp only [h0, ne_eq, not_false_eq_true, if_true] at hw
    exact h₀.fixed h0 hw hv

/-- A record the writer's own check lets through. -/
def Sized (s : StreamWriter) (r : Record) : Prop :=
  s.record_size_ = 0 ∨ r.data.length = s.record_size_.toNat

instance (s : StreamWriter) (r : Record) : Decidable (s.Sized r) :=
  inferInstanceAs (Decidable (_ ∨ _))

/-- The check comes before everything else, so a record of another size leaves no trace. -/
lemma write_unsized (h : s.Tallying w log) (hno : ¬ s.Sized r) :
    s.write host r.time_ns r.data w = (.ret (-EINVAL), s, (w.now host).2) := by
  obtain ⟨h0, hlen⟩ := not_or.mp hno
  have hlive : live s.index_ = some ⟨s.indexInode, true⟩ := by rw [h.index]; rfl
  simp only [write, hlive, h0, ne_eq, not_false_eq_true, if_true, writeFixed, hlen, if_false]

/-- The call is successful, unless the record has the wrong size. -/
def Takes (host : Host) (x : StreamWriter × World) (r : Record) : Prop :=
  x.1.Sized r → (x.1.write host r.time_ns r.data x.2).1.positive = true

/-- **A run** whose records of the right size are all accepted. -/
lemma run_tallies {records : List Record} (h : s.Tallying w log)
    (hacc : Machine.Throughout (writeStep host) (Takes host) (s, w) records)
    {log' : List (ℕ × Record)} (hrun : s.run host records w = (log', s', w')) :
    s'.Tallying w' (log ++ log') ∧ s'.record_size_ = s.record_size_ ∧
      log'.map Prod.snd = records.filter fun r => decide (s.Sized r) := by
  induction records generalizing s w log log' with
  | nil =>
      cases hrun
      exact ⟨by rw [List.append_nil]; exact h, rfl, rfl⟩
  | cons r rs ih =>
      obtain ⟨⟨out, s₁, w₁⟩, ho⟩ : ∃ o, o = s.write host r.time_ns r.data w :=
        ⟨_, rfl⟩
      obtain ⟨⟨rest, s₂, w₂⟩, hr⟩ : ∃ o, o = s₁.run host rs w₁ := ⟨_, rfl⟩
      have hstep : writeStep host (s, w) r = some (s₁, w₁) := by rw [writeStep, ← ho]
      obtain ⟨hnow, hlater⟩ := (Machine.throughout_cons_iff hstep).mp hacc
      simp only [run, ← ho, ← hr, Prod.mk.injEq] at hrun
      obtain ⟨rfl, rfl, rfl⟩ := hrun
      by_cases hsized : s.Sized r
      · have hpos : out.positive = true := by
          have := hnow hsized
          rwa [← ho] at this
        obtain ⟨v, rfl, hv⟩ := Outcome.positive_iff.mp hpos
        obtain ⟨h₁, hsize₁⟩ := write_tallies h ho.symm hv
        obtain ⟨h₂, hsize₂, hall⟩ := ih h₁ hlater hr.symm
        have hsame : ∀ x, s₁.Sized x ↔ s.Sized x := fun x => by rw [Sized, Sized, hsize₁]
        rw [if_pos hpos, List.filter_cons_of_pos (by simpa using hsized)]
        refine ⟨by rw [← List.append_assoc]; exact h₂, hsize₂.trans hsize₁, ?_⟩
        simp only [List.singleton_append, List.map_cons, hall, hsame]
      · rw [write_unsized h hsized] at ho
        cases ho
        obtain ⟨h₂, hsize₂, hall⟩ := ih (h.extends_nil (now_extends host w)) hlater hr.symm
        have hneg : (Outcome.ret (-EINVAL)).positive = false := by decide
        rw [hneg, List.filter_cons_of_neg (by simpa using hsized)]
        exact ⟨h₂, hsize₂, hall⟩

end StreamWriter

open StreamWriter

/-- A new stream is tallied. -/
lemma openFile_tallying {host : Host} {s₀ s : StreamWriter} {request : LogRequest}
    {w₀ w : World} {out : Outcome} (hopen : s₀.openFile host request w₀ = (out, s, w))
    (hout : out.positive = true) (hnul : request.size = 0 → (0 : UInt8) ∉ request.channel) :
    s.Tallying w [] ∧ s.record_size_ = request.size := by
  obtain ⟨v, rfl, hv⟩ := Outcome.positive_iff.mp hout
  have hempty : Tallies (s₀.named request).record_size_ w₀ [] := ⟨by simp, by simp⟩
  exact hempty.reopen hnul hopen hv

/-- **Writer and reader agree on an index file exactly as long as its entries end below `2 ^ 32`.**
A stream is opened and written to, in as many pairs of files as it takes, and every record of the
right size is accepted; `inode` is the index file that is open at the end or one that a record went
to. -/
theorem counts_agree_iff {host : Host} {s₀ s s' : StreamWriter} {request : LogRequest}
    {w₀ w w' : World} {out : Outcome} {records : List Record} {log : List (ℕ × Record)}
    {p : Path} {overrun : Path → Bytes} {inode : ℕ}
    (hopen : s₀.openFile host request w₀ = (out, s, w)) (hout : out.positive = true)
    (hnul : request.size = 0 → (0 : UInt8) ∉ request.channel)
    (hacc : Machine.Throughout (writeStep host) (Takes host) (s, w) records)
    (hrun : s.run host records w = (log, s', w'))
    (hinode : inode = s'.indexInode ∨ inode ∈ log.map Prod.fst)
    (hp : w'.tree.lookup p = some (.file inode)) :
    let reader := IndexFileReader.make (w'.view (fun _ i => w'.content i) overrun) p
    let written := Tape.project inode log
    (reader.records_cnt_ = written.length ∧
      ∀ r, written.getLast? = some r → reader.end_ns_ = r.time_ns) ↔
    sizeofLogFileHeader + written.length * entryWidth request.size < 2 ^ 32 := by
  intro reader written
  obtain ⟨h, hsize⟩ := openFile_tallying hopen hout hnul
  obtain ⟨h', hsize', -⟩ := run_tallies h hacc hrun
  rw [List.nil_append] at h'
  have htally : IsTally request.size (w'.content inode) (timesOf inode log) := by
    rw [← hsize, ← hsize']
    rcases hinode with rfl | hmem
    · exact h'.file
    · obtain ⟨e, he, rfl⟩ := List.mem_map.mp hmem
      exact h'.logged.files e he
  obtain ⟨hh, h49, hrec, htype, ht⟩ := htally
  have hlook : (w'.view (fun _ i => w'.content i) overrun).look p =
      some (.file (w'.content inode)) := by
    simp only [World.view, hp]
  have hiff := ht.agrees_iff h49 htype hlook
  have hlen : (timesOf inode log).length = written.length := List.length_map _
  have hlast : (∀ time_ns, (timesOf inode log).getLast? = some time_ns →
      reader.end_ns_ = time_ns) ↔ ∀ r, written.getLast? = some r →
        reader.end_ns_ = r.time_ns := by
    rw [timesOf, List.getLast?_map]
    constructor
    · intro hall r hr
      exact hall r.time_ns (by rw [hr]; rfl)
    · intro hall time_ns ht
      obtain ⟨r, hr, rfl⟩ := Option.map_eq_some_iff.mp ht
      exact hall r hr
  rw [LogFileHeader.entrySize_eq hrec, hlen, hlast] at hiff
  exact hiff

/-- Two records, and the time of the second one. -/
theorem counts_agree_sample :
    let reader := IndexFileReader.make (sampleRun.2.2.view (fun _ i => sampleRun.2.2.content i)
      fun _ => []) samplePath
    reader.records_cnt_ = 2 ∧ reader.end_ns_ = 1704067201000000000 := by
  have hiff := @counts_agree_iff .january { folder_ := [ascii "r"] } sampleOpened.2.1
    sampleRun.2.1 _ _
    sampleOpened.2.2 sampleRun.2.2 _
      [⟨1704067200000000000, [1, 2]⟩, ⟨1704067201000000000, []⟩]
    sampleRun.1 samplePath (fun _ => []) sampleOpened.2.1.indexInode rfl sampleOpened_positive
    (fun _ => sample_channel.2) ⟨fun _ => by
      decide +kernel, fun _ => by decide +kernel, trivial⟩ rfl
    (Or.inr (by rw [sampleRun_made.1, sampleOpened_made.2.1]; decide)) sampleRun_lookup
  have hwritten : Tape.project sampleOpened.2.1.indexInode sampleRun.1 =
      [⟨1704067200000000000, [1, 2]⟩, ⟨1704067201000000000, []⟩] := by
    rw [sampleRun_made.1, sampleOpened_made.2.1]
    rfl
  rw [hwritten] at hiff
  obtain ⟨hcount, hlast⟩ := hiff.mpr (by decide)
  exact ⟨hcount, hlast ⟨1704067201000000000, []⟩ rfl⟩

/-- **The index file of a stream of variable-size records stays small enough**, because a record
takes more room in the data file than in the index file.  Payloads of almost `2 ^ 32` bytes, whose
position does not fit any more, are left out. -/
theorem variable_index_bounded {host : Host} {s₀ s s' : StreamWriter} {request : LogRequest}
    {w₀ w w' : World} {out : Outcome} {records : List Record} {log : List (ℕ × Record)}
    (hopen : s₀.openFile host request w₀ = (out, s, w)) (hout : out.positive = true)
    (hvar : request.size = 0) (hnul : (0 : UInt8) ∉ request.channel)
    (hlen : ∀ r ∈ records, r.data.length + 61 ≤ UINT32_MAX)
    (hacc : Machine.Throughout (writeStep host) (Takes host) (s, w) records)
    (hrun : s.run host records w = (log, s', w')) {inode : ℕ}
    (hinode : inode ∈ log.map Prod.fst) :
    sizeofLogFileHeader + (Tape.project inode log).length * entryWidth request.size < 2 ^ 32 := by
  obtain ⟨h, hsize⟩ := openFile_tallying hopen hout fun _ => hnul
  obtain ⟨-, -, hall⟩ := run_tallies h hacc hrun
  have hkeep : ∀ r ∈ records, decide (s.Sized r) = true := fun r _ =>
    decide_eq_true (Or.inl (hsize.trans hvar))
  rw [List.filter_eq_self.mpr hkeep] at hall
  obtain ⟨v, rfl, hv⟩ := Outcome.positive_iff.mp hout
  obtain ⟨pairs₀, hl⟩ := openFile_ledger hopen hv hnul
  obtain ⟨pairs, hl', -⟩ := run_ledger hl hnul hlen hrun hall
  rw [List.nil_append] at hl'
  obtain ⟨e, he, rfl⟩ := List.mem_map.mp hinode
  obtain ⟨f, hf, hfi⟩ := hl'.books.logged e he
  obtain ⟨-, hfs⟩ := hl'.books.named f hf
  have h0 : f.stream.record_size = 0 := hfs.trans hvar
  have hindex := Stream.length_index_le h0
  have hend := (hl'.books.sound f hf).offset h0
  rw [Stream.length_index fun h => absurd h0 h, Stream.entrySize, if_pos h0,
    hl'.books.records f hf, hfi] at hindex
  rw [entryWidth, if_pos hvar]
  unfold UINT32_MAX at hend
  omega

namespace StreamWriter

variable {host : Host} {s : StreamWriter} {w : World} {log : List (ℕ × Record)}

/-- Records of a fixed size all go to the one index file. -/
lemma run_fixed (hn : host.NeverFails) (h0 : s.record_size_ ≠ 0)
    (h31 : s.record_size_.toNat + 8 < 2 ^ 31) (h : s.Tallying w log) {records : List Record}
    (hsized : ∀ r ∈ records, r.data.length = s.record_size_.toNat) :
    ∃ w', s.run host records w = (records.map fun r => (s.indexInode, r), s, w') ∧
      w'.tree = w.tree ∧ s.Tallying w' (log ++ records.map fun r => (s.indexInode, r)) := by
  induction records generalizing w log with
  | nil => exact ⟨w, rfl, rfl, by rw [List.map_nil, List.append_nil]; exact h⟩
  | cons r rs ih =>
      have hs : s.Writes (s.stream 0 []) s.indexInode 0 :=
        ⟨rfl, rfl, h.index, fun h => absurd h h0, fun h => absurd h h0⟩
      have hr := hsized r List.mem_cons_self
      have hlive : live s.index_ = some ⟨s.indexInode, true⟩ := by rw [h.index]; rfl
      obtain ⟨w₁, hw, -, e⟩ := (writeFixed_reliable hn hs h0 (w := (w.now host).2) h.inode_lt
        (s.flushDue host w) r).1 hr
      have hwrite : s.write host r.time_ns r.data w =
          (.ret (toInt (r.data.length + sizeofFixedRecordIdx : ℕ)), s, w₁) := by
        simp only [write, hlive, h0, ne_eq, not_false_eq_true, if_true, hw]
      have hpos : 0 < toInt ((r.data.length + sizeofFixedRecordIdx : ℕ) : ℤ) := by
        rw [sizeofFixedRecordIdx, hr, toInt_of_lt h31]
        omega
      obtain ⟨h₁, -⟩ := write_tallies h hwrite hpos
      obtain ⟨w₂, hrun, htree, h₂⟩ :=
        ih h₁ fun x hx => hsized x (List.mem_cons_of_mem _ hx)
      refine ⟨w₂, ?_, htree.trans e.tree, by simpa using h₂⟩
      have hpositive :
        (Outcome.ret (toInt ((r.data.length + sizeofFixedRecordIdx : ℕ) : ℤ))).positive =
          true := Outcome.positive_iff.mpr ⟨_, rfl, hpos⟩
      simp only [run, hwrite, hrun]
      rw [if_pos hpositive]
      rfl

end StreamWriter

/-- A stream of records of `2 ^ 30` bytes. -/
def gigabyteOpened : Outcome × StreamWriter × World :=
  ({ folder_ := [ascii "r"] } : StreamWriter).openFile .january
    { channel := ascii "a", size := 2 ^ 30, data := [], time_ns := 1704067200000000000 }
    (.bare [ascii "r"])

/-- The index file of a channel with records of `2 ^ 30` bytes. -/
def gigabytePath : Path := [ascii "r", ascii "000000_a_1073741824.idx"]

lemma gigabyteOpened_made : gigabyteOpened.1.positive = true ∧
    gigabyteOpened.2.1.indexInode = 0 ∧ gigabyteOpened.2.1.record_size_ = 2 ^ 30 ∧
    gigabyteOpened.2.2.tree.lookup gigabytePath = some (.file 0) := by
  decide +kernel

/-- Four records of `2 ^ 30` bytes. -/
lemma gigabyte_run {data : Bytes} (hdata : data.length = 2 ^ 30) :
    ∃ w', gigabyteOpened.2.1.run .january (List.replicate 4 ⟨1704067200000000000, data⟩)
        gigabyteOpened.2.2 =
        (List.replicate 4 (0, ⟨1704067200000000000, data⟩), gigabyteOpened.2.1, w') ∧
      w'.tree = gigabyteOpened.2.2.tree ∧ (w'.content 0).length = 2 ^ 32 + 81 ∧
      ∃ h : LogFileHeader, h.header_size_.toNat = sizeofLogFileHeader ∧
        h.record_size_ = 2 ^ 30 ∧ HasHeader (w'.content 0) h := by
  obtain ⟨hout, hinode, hsize, -⟩ := gigabyteOpened_made
  obtain ⟨h, -⟩ := @openFile_tallying .january { folder_ := [ascii "r"] } gigabyteOpened.2.1
    { channel := ascii "a", size := 2 ^ 30, data := [], time_ns := 1704067200000000000 }
    (.bare [ascii "r"]) gigabyteOpened.2.2 gigabyteOpened.1 rfl hout fun h => absurd h (by decide)
  have hsized : ∀ r ∈ List.replicate 4 (⟨1704067200000000000, data⟩ : Record),
      r.data.length = gigabyteOpened.2.1.record_size_.toNat := by
    intro r hr
    rw [List.eq_of_mem_replicate hr, hsize]
    exact hdata
  obtain ⟨w', hrun, htree, h'⟩ := run_fixed Host.neverFails_january (by rw [hsize]; decide)
    (by rw [hsize]; decide) h hsized
  obtain ⟨hh, h49, hrec, -, ht⟩ := h'.file
  rw [List.nil_append, hinode, List.map_replicate] at ht
  have htimes :
    (timesOf 0 (List.replicate 4 (0, (⟨1704067200000000000, data⟩ : Record)))).length =
      4 := by
    simp [timesOf, Tape.project]
  have hwidth : entryWidth (2 ^ 30) = 1073741832 := by decide
  rw [hinode, List.map_replicate] at hrun
  refine ⟨w', hrun, htree, ?_, hh, h49, hrec.trans hsize, ht.hasHeader⟩
  rw [ht.length, LogFileHeader.entrySize_eq (hrec.trans hsize), htimes, hwidth]
  rfl

/-- A payload of `2 ^ 30` bytes. -/
def gigabyte : Bytes := List.replicate (2 ^ 30) 0

/-- **Four records of `2 ^ 30` bytes** are accepted, and the reader counts none. -/
theorem four_gigabytes_uncounted :
    let o := gigabyteOpened.2.1.run .january (List.replicate 4 ⟨1704067200000000000, gigabyte⟩)
      gigabyteOpened.2.2
    let path : Path := [ascii "r", ascii "000000_a_1073741824.idx"]
    o.1 = List.replicate 4 (0, ⟨1704067200000000000, gigabyte⟩) ∧
      o.2.2.tree.lookup path = some (.file 0) ∧
      (IndexFileReader.make (o.2.2.view (fun _ i => o.2.2.content i) fun _ => [])
        path).records_cnt_ = 0 := by
  intro o path
  obtain ⟨w', hrun, htree, hlen, h, h49, hrec, hheader⟩ := @gigabyte_run gigabyte
    List.length_replicate
  have ho : o = (List.replicate 4 (0, ⟨1704067200000000000, gigabyte⟩),
    gigabyteOpened.2.1, w') :=
    hrun
  have hlook : w'.tree.lookup path = some (.file 0) := by
    rw [htree]
    exact gigabyteOpened_made.2.2.2
  rw [ho]
  refine ⟨rfl, hlook, ?_⟩
  have hview : (w'.view (fun _ i => w'.content i) fun _ => []).look path =
      some (.file (w'.content 0)) := by
    simp only [World.view, hlook]
  rw [IndexFileReader.records_cnt_make hview hheader, LogFileHeader.entryCount, hlen, h49,
    LogFileHeader.entrySize_eq hrec]
  rfl

end Tracebox
