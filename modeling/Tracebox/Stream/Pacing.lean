import Tracebox.Stream.Crash
import Tracebox.Stream.Places

/-!
# When a stream is flushed

A flush changes no byte of a file, so it does not show in the contents.  It shows in the journal of
the world, and the time of a flush is the last reading of the clock before the call that flushed
returned.

* `World.Acts` — the effects between two worlds, in their order; one lemma for each call.
* `Call`, `pace` — a run as the list of its calls: when each came, when the files were opened,
  when they were flushed last, and whether the record was flushed.
* `write_stepped` — **what one call does** to the clock, the journal and the writer.
* `paced_iff` — **which runs keep the pace**.
-/

namespace Tracebox

open Bytes

/-! ## Effects -/

/-- The effect is a flush. -/
def IoEvent.isFlush : IoEvent → Bool
  | append _ _ => false
  | flush _ => true

/-- The last effect on a file was a flush. -/
def flushedLast (inode : ℕ) (es : List IoEvent) : Bool :=
  es.foldl (fun last e => if e.inode = inode then e.isFlush else last) false

lemma any_isFlush_of_flushedLast {inode : ℕ} {es : List IoEvent}
    (h : flushedLast inode es = true) : es.any IoEvent.isFlush = true := by
  induction es using List.reverseRecOn with
  | nil => cases h
  | append_singleton es e ih =>
      rw [flushedLast, List.foldl_append, List.foldl_cons, List.foldl_nil] at h
      rw [List.any_append]
      split_ifs at h with he
      · simp [h]
      · simp [ih h]

/-- The effects between two worlds. -/
structure World.Acts (w w' : World) (es : List IoEvent) : Prop where
  journal : w'.journal = w.journal ++ es
  ticks : w'.ticks = w.ticks
  inodes : w.inodes ≤ w'.inodes

namespace World

lemma Acts.refl (w : World) : w.Acts w [] := ⟨(List.append_nil _).symm, rfl, le_rfl⟩

lemma Acts.trans {a b c : World} {es fs : List IoEvent} (h₁ : a.Acts b es) (h₂ : b.Acts c fs) :
    a.Acts c (es ++ fs) :=
  ⟨by rw [h₂.journal, h₁.journal, List.append_assoc], h₂.ticks.trans h₁.ticks,
    h₁.inodes.trans h₂.inodes⟩

lemma acts_called (w : World) : w.Acts w.called [] := ⟨(List.append_nil _).symm, rfl, le_rfl⟩

lemma acts_record {w : World} {e : IoEvent} (h : e.inode < w.inodes) : w.Acts (w.record e) [e] := by
  refine ⟨?_, ticks_record w e, (inodes_record w e).ge⟩
  simp [record, h]

lemma acts_create (w : World) (p : Path) : w.Acts (w.create p) [] :=
  ⟨(List.append_nil _).symm, rfl, Nat.le_succ _⟩

end World

section Calls

variable {host : Host} {f : FileIo} {w : World}

lemma FileIo.write_acts (hn : host.NeverFails) (hf : f.inode < w.inodes) (bytes : Bytes) :
    (f.write host bytes w).1 = true ∧
      w.Acts (f.write host bytes w).2 [.append f.inode bytes] := by
  have hact : w.Acts (w.record (.append f.inode bytes)).called [.append f.inode bytes] :=
    (World.acts_record (e := .append f.inode bytes) hf).trans (World.acts_called _)
  simp only [FileIo.write, hn w.calls]
  exact ⟨trivial, hact⟩

lemma FileIo.flush_acts (hn : host.NeverFails) (hf : f.inode < w.inodes) :
    (f.flush host w).1 = true ∧ w.Acts (f.flush host w).2 [.flush f.inode] := by
  have hact : w.Acts (w.record (.flush f.inode)).called [.flush f.inode] :=
    (World.acts_record (e := .flush f.inode) hf).trans (World.acts_called _)
  simp only [FileIo.flush, hn w.calls]
  exact ⟨trivial, hact⟩

lemma FileIo.open_acts (dir : Path) (rel : Bytes) :
    w.Acts (FileIo.open_ host dir rel w).2 [] ∧
      ((FileIo.open_ host dir rel w).1.is_open = true → (FileIo.open_ host dir rel w).1.inode <
        (FileIo.open_ host dir rel w).2.inodes) := by
  unfold FileIo.open_
  split
  · rename_i p _ hp
    split
    · rename_i i hl
      exact ⟨World.acts_called w, fun _ => w.linked p i hl⟩
    · exact ⟨World.acts_called w, fun h => by cases h⟩
    · exact ⟨(World.acts_create w p).trans (World.acts_called _), fun _ => Nat.lt_succ_self _⟩
  · exact ⟨World.acts_called w, fun h => by cases h⟩

namespace StreamWriter

/-- A group of writes, with the flush that may be due at its end. -/
lemma blocks_acts (hn : host.NeverFails) (flush : Bool) (blocks : List Bytes) :
    ∀ {w : World}, f.inode < w.inodes →
      (tryAll (blocks.map (f.write host) ++ flushIf host flush f) w).1 = true ∧
        w.Acts (tryAll (blocks.map (f.write host) ++ flushIf host flush f) w).2
          (blocks.map (.append f.inode) ++ if flush then [.flush f.inode] else []) := by
  induction blocks with
  | nil =>
      intro w hf
      cases flush with
      | false => exact ⟨rfl, World.Acts.refl w⟩
      | true =>
          obtain ⟨hok, hact⟩ := FileIo.flush_acts hn hf
          simp only [List.map_nil, List.nil_append, flushIf, if_true, tryAll, hok]
          exact ⟨trivial, hact⟩
  | cons b blocks ih =>
      intro w hf
      obtain ⟨hok, hact⟩ := FileIo.write_acts hn hf b
      obtain ⟨hall, hrest⟩ := ih (lt_of_lt_of_le hf hact.inodes)
      simp only [List.map_cons, List.cons_append, tryAll, hok, if_true]
      exact ⟨hall, hact.trans hrest⟩

lemma writeHeader_acts (hn : host.NeverFails) (s : StreamWriter) (time_ns : UInt64) (type : UInt8)
    (hopen : f.is_open = true) (hf : f.inode < w.inodes) :
    (s.writeHeader host f time_ns type w).1 = (sizeofLogFileHeader : ℤ) ∧
      w.Acts (s.writeHeader host f time_ns type w).2
        [.append f.inode (s.header time_ns type).encode, .flush f.inode] := by
  obtain ⟨hok, hact⟩ := blocks_acts hn true [(s.header time_ns type).encode] hf
  simp only [List.map_cons, List.map_nil, flushIf, if_true, List.cons_append, List.nil_append]
    at hok hact
  simp only [writeHeader, hopen, if_true, hok]
  exact ⟨trivial, hact⟩

/-- Closing a handle flushes its file. -/
lemma closeHandle_acts (hn : host.NeverFails) {h : Option FileIo}
    (hissued : ∀ f, live h = some f → f.inode < w.inodes) :
    w.Acts (closeHandle host h w).2 (((live h).map fun f => IoEvent.flush f.inode).toList) := by
  cases hl : live h with
  | none =>
      simp only [closeHandle, hl]
      exact World.Acts.refl w
  | some f =>
      simp only [closeHandle, hl]
      exact (FileIo.flush_acts hn (hissued f hl)).2

end StreamWriter

end Calls

namespace StreamWriter

variable {host : Host} {s s' : StreamWriter} {w w' : World}

/-! ## Opening -/

/-- What a successful `reopenFile` does to the journal and to the clock. -/
structure NewFiles (host : Host) (s s' : StreamWriter) (w w' : World)
    (es : List IoEvent) : Prop where
  journal : w'.journal = w.journal ++ es
  ticks : w'.ticks = w.ticks + 1
  flushed : es.any IoEvent.isFlush = true
  last_flush : s'.last_flush_ = host.clock w.ticks
  size : s'.record_size_ = s.record_size_
  index : ∃ i, s'.index_ = some ⟨i, true⟩ ∧ i < w'.inodes
  data : s.record_size_ = 0 → ∃ d, s'.data_ = some ⟨d, true⟩ ∧ d < w'.inodes

lemma opened_acts {w₀ : World} {es : List IoEvent} {result : ℤ} (h : w₀.Acts w es)
    (hflushed : es.any IoEvent.isFlush = true)
    (hindex : ∃ i, s.index_ = some ⟨i, true⟩ ∧ i < w.inodes)
    (hdata : s.record_size_ = 0 → ∃ d, s.data_ = some ⟨d, true⟩ ∧ d < w.inodes) :
    NewFiles host s (s.opened host result w).2.1 w₀ (s.opened host result w).2.2 es :=
  ⟨h.journal, congrArg Nat.succ h.ticks, hflushed, congrArg host.clock h.ticks, rfl,
    hindex, hdata⟩

lemma NewFiles.of_same {s₀ : StreamWriter} {es : List IoEvent} (h : NewFiles host s s' w w' es)
    (hsize : s.record_size_ = s₀.record_size_) : NewFiles host s₀ s' w w' es :=
  ⟨h.journal, h.ticks, h.flushed, h.last_flush, h.size.trans hsize, h.index, fun h0 =>
    h.data (hsize.trans h0)⟩

/-- **New files are flushed with their headers**, and the clock is read after that.  When no new
files can be opened, the writer is left without an index file. -/
lemma reopenAs_acts (hn : host.NeverFails) (s : StreamWriter) (file_name : Bytes) (time_ns : UInt64)
    (w : World) :
    let o := s.reopenAs host file_name time_ns w
    (o.1.positive = true → ∃ es, NewFiles host s o.2.1 w o.2.2 es) ∧
      (o.1.positive = false → live o.2.1.index_ = none ∧ ∃ es, w.Acts o.2.2 es) := by
  have hneg : (Outcome.ret (-EINVAL)).positive = false := by decide
  have hlt : (-EINVAL : ℤ) < 0 := by decide
  obtain ⟨hact, hissued⟩ := @FileIo.open_acts host w s.folder_ (file_name ++ dotIdx)
  simp only [reopenAs]
  generalize FileIo.open_ host s.folder_ (file_name ++ dotIdx) w = o at hact hissued ⊢
  obtain ⟨s₁, hs₁⟩ : ∃ s₁ : StreamWriter, s₁ = { s with index_ := some o.1 } :=
    ⟨_, rfl⟩
  have hsize : s₁.record_size_ = s.record_size_ := by rw [hs₁]
  by_cases hopen : o.1.is_open = true
  · have hi := hissued hopen
    have hindex : o.1 = ⟨o.1.inode, true⟩ := by rw [← hopen]
    obtain ⟨hval, hhead⟩ := writeHeader_acts hn s₁ time_ns kIndexFile hopen hi
    have hacts := hact.trans hhead
    simp only [hopen, not_true_eq_false, if_false, ← hs₁]
    generalize s₁.writeHeader host o.1 time_ns kIndexFile o.2 = r at hval hhead hacts ⊢
    have hpos : ¬ r.1 ≤ 0 := by
      rw [hval]
      decide
    have hi' : o.1.inode < r.2.inodes := lt_of_lt_of_le hi hhead.inodes
    have hindex₁ : s₁.index_ = some ⟨o.1.inode, true⟩ := by rw [hs₁, ← hindex]
    simp only [hpos, if_false]
    split_ifs with h0
    · obtain ⟨hdact, hdissued⟩ := @FileIo.open_acts host r.2 s₁.folder_
        (file_name ++ dotData)
      simp only [reopenData]
      generalize FileIo.open_ host s₁.folder_ (file_name ++ dotData) r.2 =
        od at hdact hdissued ⊢
      by_cases hdopen : od.1.is_open = true
      · have hd := hdissued hdopen
        have hdata : od.1 = ⟨od.1.inode, true⟩ := by rw [← hdopen]
        obtain ⟨hdval, hdhead⟩ := writeHeader_acts hn s₁ time_ns kDataFile hdopen hd
        have hall := (hacts.trans hdact).trans hdhead
        simp only [hdopen, if_true]
        generalize s₁.writeHeader host od.1 time_ns kDataFile od.2 = rd at hdval hdhead hall ⊢
        have hdpos : ¬ rd.1 < 0 := by
          rw [hdval]
          decide
        have hsum : (Outcome.ret (r.1 + rd.1)).positive = true := by
          rw [hval, hdval]
          decide
        simp only [hdpos, if_false]
        refine ⟨fun _ => ?_, fun hno => ?_⟩
        · exact ⟨_, NewFiles.of_same (opened_acts hall (by simp [IoEvent.isFlush])
            ⟨o.1.inode, hindex₁, lt_of_lt_of_le hi' (hdact.trans hdhead).inodes⟩
            fun _ => ⟨od.1.inode, by rw [← hdata], lt_of_lt_of_le hd hdhead.inodes⟩) hsize⟩
        · rw [opened, hsum] at hno
          cases hno
      · simp only [hdopen, Bool.false_eq_true, if_false, hlt, if_true, hneg,
          false_implies, true_and]
        exact fun _ => ⟨rfl, _, hacts.trans hdact⟩
    · have hvalue : (Outcome.ret r.1).positive = true := by
        rw [hval]
        decide
      refine ⟨fun _ => ⟨_, NewFiles.of_same (opened_acts hacts (by simp [IoEvent.isFlush])
        ⟨o.1.inode, hindex₁, hi'⟩ fun h => absurd (hsize.symm.trans h) h0) hsize⟩,
          fun hno => ?_⟩
      rw [opened, hvalue] at hno
      cases hno
  · simp only [hopen, Bool.false_eq_true, not_false_eq_true, if_true, hneg,
      false_implies, true_and]
    refine fun _ => ⟨?_, _, hact⟩
    simp [live, hopen]

lemma reopenFile_acts (hn : host.NeverFails) (s : StreamWriter) (time_ns : UInt64) (w : World) :
    let o := s.reopenFile host time_ns w
    (o.1.positive = true → ∃ es, NewFiles host s o.2.1 w o.2.2 es) ∧
      (o.1.positive = false → live s.index_ = none →
        live o.2.1.index_ = none ∧ ∃ es, w.Acts o.2.2 es) := by
  simp only [reopenFile]
  split
  · exact ⟨fun h => absurd h (by simp [Outcome.positive]), fun _ h =>
      ⟨h, _, World.Acts.refl w⟩⟩
  · exact ⟨fun h => absurd h (by simp [Outcome.positive]), fun _ h =>
      ⟨h, _, World.Acts.refl w⟩⟩
  · rename_i file_name _
    obtain ⟨hyes, hno⟩ := reopenAs_acts hn { s with offset_ := 0 } file_name time_ns w
    refine ⟨fun h => ?_, fun h _ => hno h⟩
    obtain ⟨es, hes⟩ := hyes h
    exact ⟨es, hes.of_same rfl⟩

/-! ## Writing -/

/-- The open files of a writer are files of the world. -/
structure HasFiles (s : StreamWriter) (w : World) : Prop where
  index : ∀ f, live s.index_ = some f → f.inode < w.inodes
  data : s.record_size_ = 0 → live s.index_ ≠ none → ∀ f, live s.data_ = some f →
    f.inode < w.inodes

lemma HasFiles.mono (h : s.HasFiles w) (hle : w.inodes ≤ w'.inodes) : s.HasFiles w' :=
  ⟨fun f hf => lt_of_lt_of_le (h.index f hf) hle,
    fun h0 hi f hf => lt_of_lt_of_le (h.data h0 hi f hf) hle⟩

lemma HasFiles.of_closed (hi : live s.index_ = none) : s.HasFiles w :=
  ⟨fun f hf => absurd (hi.symm.trans hf) (by simp), fun _ hlive => absurd hi hlive⟩

lemma HasFiles.of_open {i d : ℕ} (hi : s.index_ = some ⟨i, true⟩) (hlt : i < w.inodes)
    (hd : s.record_size_ = 0 → s.data_ = some ⟨d, true⟩ ∧ d < w.inodes) : s.HasFiles w := by
  refine ⟨fun f hf => ?_, fun h0 _ f hf => ?_⟩
  · rw [hi] at hf
    cases hf
    exact hlt
  · obtain ⟨hdata, hdlt⟩ := hd h0
    rw [hdata] at hf
    cases hf
    exact hdlt

/-- The effects end with a flush of every file of the stream. -/
def flushes (s : StreamWriter) (es : List IoEvent) : Bool :=
  flushedLast s.indexInode es && (decide (s.record_size_ ≠ 0) || flushedLast s.dataInode es)

/-- The call has files to write to: the record has the size of the stream, or new files can be
opened when it needs them. -/
def stores (host : Host) (s : StreamWriter) (r : Record) (w : World) : Bool :=
  (live s.index_).isSome &&
    if s.record_size_ = 0 then
      (live s.data_).isSome && (! s.rollover r.data ||
        let c := s.closeFile host (w.now host).2
        (c.1.reopenFile host r.time_ns c.2).1.positive)
    else decide (r.data.length = s.record_size_.toNat)

/-- A record of variable size is flushed in both files when the flag says so, whatever came
before. -/
lemma commitRecord_acts (hn : host.NeverFails) {i d : ℕ} (hindex : s.index_ = some ⟨i, true⟩)
    (hdata : s.data_ = some ⟨d, true⟩) (h0 : s.record_size_ = 0) (hi : i < w.inodes)
    (hd : d < w.inodes) (flush : Bool) (time_ns : UInt64) (data : Bytes) (result : ℤ) :
    let o := s.commitRecord host flush time_ns data result w
    (∃ offset, o.2.1 = { s with offset_ := offset }) ∧ ∃ es, w.Acts o.2.2 es ∧
      ∀ before, o.2.1.flushes (before ++ es) = flush := by
  obtain ⟨hdok, hdact⟩ := blocks_acts hn flush (f := ⟨d, true⟩) [toLE 8 time_ns.toNat,
    toLE 4 (UInt32.ofNat data.length).toNat, data.take (UInt32.ofNat data.length).toNat] hd
  simp only [List.map_cons, List.map_nil] at hdok hdact
  simp only [commitRecord, hindex, hdata, Option.getD_some, hdok, not_true_eq_false, if_false]
  generalize (tryAll _ w).2 = w₁ at hdact ⊢
  -- the fault injector of a host that does not fail lets the call pass
  obtain ⟨w₂, hinj, hact₂⟩ : ∃ w₂, s.inject host w₁ = some w₂ ∧
    w₁.Acts w₂ [] := by
    unfold inject
    split_ifs with hf ht
    · rw [hn] at ht
      cases ht
    · exact ⟨_, rfl, World.acts_called w₁⟩
    · exact ⟨_, rfl, World.Acts.refl w₁⟩
  have hi₂ : i < w₂.inodes := lt_of_lt_of_le hi (hdact.trans hact₂).inodes
  obtain ⟨hiok, hiact⟩ := blocks_acts hn flush (f := ⟨i, true⟩) [toLE 8 time_ns.toNat,
    toLE 4 s.offset_.toNat] hi₂
  simp only [List.map_cons, List.map_nil] at hiok hiact
  simp only [hinj, hiok, not_true_eq_false, if_false]
  refine ⟨⟨_, rfl⟩, _, (hdact.trans hact₂).trans hiact, fun before => ?_⟩
  simp only [flushes, indexInode, dataInode, Option.getD_some]
  cases flush with
  | true =>
      by_cases hid : i = d
      · simp [flushedLast, h0, IoEvent.inode, IoEvent.isFlush, hid]
      · simp [flushedLast, h0, IoEvent.inode, IoEvent.isFlush, hid]
  | false =>
      rw [Bool.and_eq_false_iff]
      exact Or.inl (by simp [flushedLast, IoEvent.inode, IoEvent.isFlush])

/-- What a call of `write` does to the journal, to the clock and to the writer. -/
structure Stepped (host : Host) (s : StreamWriter) (r : Record) (w : World) (s' : StreamWriter)
    (w' : World) (es : List IoEvent) : Prop where
  journal : w'.journal = w.journal ++ es
  ticks : w.ticks ≤ w'.ticks
  reads : es.any IoEvent.isFlush = true → w.ticks < w'.ticks
  issued : s'.HasFiles w'
  opened : live s'.index_ ≠ none → s'.last_flush_ = s.last_flush_ ∨
    (es.any IoEvent.isFlush = true ∧ s'.last_flush_ = host.clock (w'.ticks - 1))
  flushed : s.stores host r w = true → s'.flushes es = s.flushDue host w

/-- A call that is refused leaves everything but the clock as it was. -/
lemma Stepped.refused {r : Record} (hi : s.HasFiles w) (hj : w'.journal = w.journal)
    (ht : w.ticks ≤ w'.ticks) (hn : w'.inodes = w.inodes) (hno : s.stores host r w = false) :
    Stepped host s r w s w' [] :=
  ⟨by rw [hj, List.append_nil], ht, fun h => absurd h (by simp), hi.mono hn.ge,
    fun _ => Or.inl rfl, fun h => absurd (hno.symm.trans h) (by simp)⟩

/-- A record of fixed size. -/
lemma writeFixed_stepped (hn : host.NeverFails) (hi : s.HasFiles w) {f : FileIo}
    (hlive : live s.index_ = some f) (h0 : s.record_size_ ≠ 0) (r : Record) :
    ∃ es, Stepped host s r w
      (s.writeFixed host f (s.flushDue host w) r.time_ns r.data (w.now host).2).2.1
      (s.writeFixed host f (s.flushDue host w) r.time_ns r.data (w.now host).2).2.2 es := by
  obtain ⟨hindex, -⟩ := live_eq_some_iff.mp hlive
  obtain ⟨hok, hact⟩ := blocks_acts hn (s.flushDue host w) (f := f)
    [toLE 8 r.time_ns.toNat, r.data]
    (w := (w.now host).2) (hi.index f hlive)
  simp only [List.map_cons, List.map_nil] at hok hact
  simp only [writeFixed]
  by_cases hlen : r.data.length = s.record_size_.toNat
  · simp only [hlen, hok, if_true]
    have hticks := hact.ticks
    refine ⟨_, hact.journal, by rw [hticks]; exact Nat.le_succ _,
      fun _ => by rw [hticks]; exact Nat.lt_succ_self _, hi.mono hact.inodes, fun _ => Or.inl rfl,
      fun _ => ?_⟩
    simp only [flushes, indexInode, hindex, Option.getD_some]
    cases s.flushDue host w with
    | true => simp [flushedLast, h0, IoEvent.inode, IoEvent.isFlush]
    | false => simp [flushedLast, IoEvent.inode, IoEvent.isFlush]
  · simp only [hlen, if_false]
    exact ⟨[], Stepped.refused hi rfl (Nat.le_succ _) rfl (by simp [stores, h0, hlen])⟩

lemma closeFile_acts (hn : host.NeverFails) (hi : s.HasFiles w) (h0 : s.record_size_ = 0)
    (hlive : live s.index_ ≠ none) : ∃ es, w.Acts (s.closeFile host w).2 es := by
  have hci := closeHandle_acts hn hi.index
  exact ⟨_, hci.trans (closeHandle_acts hn fun f hf =>
    lt_of_lt_of_le (hi.data h0 hlive f hf) hci.inodes)⟩

/-- A record of variable size that needs new files.  They are flushed when they are opened, and
after that once more when a flush was due before. -/
lemma rollover_stepped (hn : host.NeverFails) (hi : s.HasFiles w) (hlive : live s.index_ ≠ none)
    (hdlive : live s.data_ ≠ none) (h0 : s.record_size_ = 0) {r : Record}
    (hroll : s.rollover r.data = true) :
    ∃ es, Stepped host s r w
      (s.writeVariable host (s.flushDue host w) r.time_ns r.data (w.now host).2).2.1
      (s.writeVariable host (s.flushDue host w) r.time_ns r.data (w.now host).2).2.2 es := by
  have hnow : (w.now host).2.ticks = w.ticks + 1 := rfl
  obtain ⟨es₀, hclose⟩ := closeFile_acts hn (w := (w.now host).2) (hi.mono le_rfl) h0 hlive
  obtain ⟨hdead, -⟩ := live_closeFile host s (w.now host).2
  obtain ⟨hyes, hno⟩ := reopenFile_acts hn (s.closeFile host (w.now host).2).1 r.time_ns
    (s.closeFile host (w.now host).2).2
  have hreopens : s.stores host r w = true → ((s.closeFile host (w.now host).2).1.reopenFile
      host r.time_ns (s.closeFile host (w.now host).2).2).1.positive = true := by
    simp [stores, h0, hroll]
  have hsize : (s.closeFile host (w.now host).2).1.record_size_ = 0 := h0
  obtain ⟨g, hg⟩ := Option.ne_none_iff_exists'.mp hdlive
  simp only [writeVariable, hg, hroll, if_true]
  generalize (s.closeFile host (w.now host).2).2 = wc at hclose hyes hno hreopens ⊢
  generalize (s.closeFile host (w.now host).2).1 = sc at hdead hyes hno hreopens hsize ⊢
  generalize sc.reopenFile host r.time_ns wc = o at hyes hno hreopens ⊢
  obtain ⟨out, s₁, w₁⟩ := o
  by_cases hpos : out.positive = true
  · obtain ⟨v, rfl, hv⟩ := Outcome.positive_iff.mp hpos
    obtain ⟨es₁, hre⟩ := hyes hpos
    obtain ⟨i, hindex₁, hi₁⟩ := hre.index
    obtain ⟨d, hdata₁, hd₁⟩ := hre.data hsize
    obtain ⟨⟨offset, hs'⟩, es, hact, hflush⟩ := commitRecord_acts hn hindex₁ hdata₁
      (hre.size.trans hsize) hi₁ hd₁ (s.flushDue host w) r.time_ns r.data v
    simp only [not_le.mpr hv, if_false]
    generalize s₁.commitRecord host (s.flushDue host w) r.time_ns r.data v w₁ = o
      at hs' hact hflush ⊢
    have hticks : o.2.2.ticks = w.ticks + 2 := by
      rw [hact.ticks, hre.ticks, hclose.ticks, hnow]
    refine ⟨es₀ ++ es₁ ++ es, ?_, by
      omega, fun _ => by omega, ?_, fun _ => Or.inr ⟨?_, ?_⟩, fun _ => hflush _⟩
    · rw [hact.journal, hre.journal, hclose.journal, List.append_assoc, List.append_assoc,
        List.append_assoc]
      rfl
    · refine HasFiles.of_open (i := i) (d := d) (by rw [hs']; exact hindex₁)
        (lt_of_lt_of_le hi₁ hact.inodes) fun _ => ⟨by rw [hs']; exact hdata₁, ?_⟩
      exact lt_of_lt_of_le hd₁ hact.inodes
    · simp [hre.flushed]
    · have hlast : o.2.1.last_flush_ = s₁.last_flush_ := by rw [hs']
      rw [hlast, hre.last_flush, hclose.ticks, hnow, hticks]
      rfl
  · -- no new files: what is left is a writer without an index file
    obtain ⟨hdead₁, es₁, hact₁⟩ := hno (by simpa using hpos) hdead
    have hstays : ∃ es, Stepped host s r w s₁ w₁ es := by
      have hticks : w₁.ticks = w.ticks + 1 := by rw [hact₁.ticks, hclose.ticks, hnow]
      refine ⟨es₀ ++ es₁, ?_, by omega, fun _ => by omega, HasFiles.of_closed hdead₁,
        fun h => absurd hdead₁ h, fun h => absurd (hreopens h) hpos⟩
      rw [hact₁.journal, hclose.journal]
      exact List.append_assoc _ _ _
    cases out with
    | thrown => exact hstays
    | hangs => exact hstays
    | ret v =>
        have hv : v ≤ 0 := by
          by_contra hv
          exact hpos (Outcome.positive_iff.mpr ⟨v, rfl, not_le.mp hv⟩)
        simp only [hv, if_true]
        exact hstays

/-- A record of variable size. -/
lemma writeVariable_stepped (hn : host.NeverFails) (hi : s.HasFiles w) {f : FileIo}
    (hlive : live s.index_ = some f) (h0 : s.record_size_ = 0) (r : Record) :
    ∃ es, Stepped host s r w
      (s.writeVariable host (s.flushDue host w) r.time_ns r.data (w.now host).2).2.1
      (s.writeVariable host (s.flushDue host w) r.time_ns r.data (w.now host).2).2.2 es := by
  have hne : live s.index_ ≠ none := by simp [hlive]
  cases hdlive : live s.data_ with
  | none =>
      simp only [writeVariable, hdlive]
      exact ⟨[], Stepped.refused hi rfl (Nat.le_succ _) rfl (by simp [stores, h0, hdlive])⟩
  | some g =>
      by_cases hroll : s.rollover r.data = true
      · exact rollover_stepped hn hi hne (by simp [hdlive]) h0 hroll
      · obtain ⟨hindex, hopen⟩ := live_eq_some_iff.mp hlive
        obtain ⟨hdata, hdopen⟩ := live_eq_some_iff.mp hdlive
        have hf : s.index_ = some ⟨f.inode, true⟩ := by rw [hindex, ← hopen]
        have hg : s.data_ = some ⟨g.inode, true⟩ := by rw [hdata, ← hdopen]
        obtain ⟨⟨offset, hs'⟩, es, hact, hflush⟩ := commitRecord_acts hn hf hg h0
          (w := (w.now host).2) (hi.index f hlive) (hi.data h0 hne g hdlive) (s.flushDue host w)
          r.time_ns r.data 0
        simp only [writeVariable, hdlive, hroll, if_false, Bool.false_eq_true]
        generalize s.commitRecord host (s.flushDue host w) r.time_ns r.data 0 (w.now host).2 = o
          at hs' hact hflush ⊢
        have hticks : o.2.2.ticks = w.ticks + 1 := hact.ticks
        refine ⟨es, hact.journal, by omega, fun _ => by omega, ?_, fun _ => Or.inl (by rw [hs']),
          fun _ => by simpa using hflush []⟩
        have hmono : s.HasFiles o.2.2 := hi.mono hact.inodes
        rw [hs']
        exact ⟨hmono.index, hmono.data⟩

/-- **What one call does.** -/
lemma write_stepped (hn : host.NeverFails) (hi : s.HasFiles w) (r : Record) :
    ∃ es, Stepped host s r w (s.write host r.time_ns r.data w).2.1
      (s.write host r.time_ns r.data w).2.2 es := by
  cases hlive : live s.index_ with
  | none =>
      simp only [write, hlive]
      exact ⟨[], Stepped.refused hi rfl le_rfl rfl (by simp [stores, hlive])⟩
  | some f =>
      simp only [write, hlive]
      by_cases h0 : s.record_size_ = 0
      · simp only [h0, ne_eq, not_true_eq_false, if_false]
        exact writeVariable_stepped hn hi hlive h0 r
      · simp only [h0, ne_eq, not_false_eq_true, if_true]
        exact writeFixed_stepped hn hi hlive h0 r

/-! ## Runs -/

/-- One call of `write`. -/
structure Call where
  /-- the clock when the call came -/
  now : ℤ
  /-- `last_flush_` at that time -/
  last_flush : ℤ
  /-- when a file of the writer was flushed last before the call -/
  latest : ℤ
  stored : Bool
  flushed : Bool
  deriving DecidableEq

/-- When a file was flushed last, after a call that led from one world to another: the last reading
of the clock before the call returned, if it flushed. -/
def latestFlush (host : Host) (latest : ℤ) (w w' : World) : ℤ :=
  if (w'.journal.drop w.journal.length).any IoEvent.isFlush then host.clock
    (w'.ticks - 1) else latest

/-- The calls of a run. -/
def pace (host : Host) : List Record → StreamWriter → ℤ → World → List Call
  | [], _, _, _ => []
  | r :: rs, s, latest, w =>
      let o := s.write host r.time_ns r.data w
      ⟨(w.now host).1, s.last_flush_, latest, s.stores host r w,
        o.2.1.flushes (o.2.2.journal.drop w.journal.length)⟩ ::
      pace host rs o.2.1 (latestFlush host latest w o.2.2) o.2.2

/-- A record that is stored is flushed when more than the interval has passed since the latest
flush, and at no other time; so two flushes of records are more than the interval apart. -/
structure KeepsPace (calls : List Call) : Prop where
  exact : ∀ c ∈ calls, c.stored = true →
    (c.flushed = true ↔ kFlushInterval < c.now - c.latest)
  apart : calls.Pairwise fun a b => a.stored = true → a.flushed = true → b.stored = true →
    b.flushed = true → kFlushInterval < b.now - a.now

/-- What holds before each call of a run: the latest flush is not in the future, and a writer with
open files has noted it or an earlier one. -/
structure OnTime (host : Host) (s : StreamWriter) (latest : ℤ) (w : World) : Prop where
  issued : s.HasFiles w
  noted : live s.index_ ≠ none → s.last_flush_ ≤ latest
  past : ∀ n, w.ticks ≤ n → latest ≤ host.clock n

lemma latestFlush_eq {latest : ℤ} {es : List IoEvent} (hj : w'.journal = w.journal ++ es) :
    latestFlush host latest w w' = if es.any IoEvent.isFlush then host.clock (w'.ticks - 1)
      else latest := by
  rw [latestFlush, hj, List.drop_left]

/-- **A call keeps the writer on time**, and a flush in it comes no earlier than the call. -/
lemma OnTime.step {latest : ℤ} {r : Record} {es : List IoEvent} (hclock : Monotone host.clock)
    (h : s.OnTime host latest w) (hs : Stepped host s r w s' w' es)
    (hlive : live s.index_ = none →
      live s'.index_ = none) :
    s'.OnTime host (latestFlush host latest w w') w' ∧ latest ≤ latestFlush host latest w w' ∧
      (es.any IoEvent.isFlush = true → host.clock w.ticks ≤ latestFlush host latest w w') := by
  have hlive' : live s'.index_ ≠ none → live s.index_ ≠ none := fun h h' => h (hlive h')
  rw [latestFlush_eq hs.journal]
  split_ifs with hf
  · have hlt := hs.reads hf
    have hle : latest ≤ host.clock (w'.ticks - 1) := h.past _ (by omega)
    refine ⟨⟨hs.issued, fun hne => ?_, fun n hn => hclock (by omega)⟩, hle, fun _ =>
      hclock (by omega)⟩
    rcases hs.opened hne with hsame | ⟨-, hnew⟩
    · rw [hsame]
      exact (h.noted (hlive' hne)).trans hle
    · exact hnew.le
  · refine ⟨⟨hs.issued, fun hne => ?_, fun n hn => h.past n (hs.ticks.trans hn)⟩, le_rfl,
      fun h => absurd h hf⟩
    rcases hs.opened hne with hsame | ⟨hany, -⟩
    · rw [hsame]
      exact h.noted (hlive' hne)
    · exact absurd hany hf

/-- **The calls of a run**, as the writer's own note of the latest flush tells them. -/
lemma pace_spec (hn : host.NeverFails) (hclock : Monotone host.clock) {records : List Record} :
    ∀ {s : StreamWriter} {w : World} {latest : ℤ}, s.OnTime host latest w →
      ∀ c ∈ pace host records s latest w, host.clock w.ticks ≤ c.now ∧
        latest ≤ c.latest ∧ (c.stored = true → c.last_flush ≤ c.latest ∧
          (c.flushed = true ↔ kFlushInterval < c.now - c.last_flush)) := by
  induction records with
  | nil => exact fun _ _ hc => absurd hc List.not_mem_nil
  | cons r rs ih =>
      intro s w latest h c hc
      obtain ⟨es, hs⟩ := write_stepped hn h.issued r
      have hlive : live s.index_ = none →
          live (s.write host r.time_ns r.data w).2.1.index_ = none := fun hdead => by
        rw [write, hdead]
        exact hdead
      obtain ⟨hnext, hle, -⟩ := h.step hclock hs hlive
      rw [pace] at hc
      rcases List.mem_cons.mp hc with rfl | hc
      · refine ⟨le_rfl, le_rfl, fun hstored => ⟨h.noted ?_, ?_⟩⟩
        · simp only [stores, Bool.and_eq_true] at hstored
          exact Option.isSome_iff_ne_none.mp hstored.1
        · rw [hs.journal, List.drop_left, hs.flushed hstored, flushDue, decide_eq_true_eq]
      · obtain ⟨hnow, hlatest, hrest⟩ := ih hnext c hc
        exact ⟨(hclock hs.ticks).trans hnow, hle.trans hlatest, hrest⟩

/-- **Two flushes are apart** as soon as each comes more than the interval after the latest one. -/
lemma pace_apart (hn : host.NeverFails) (hclock : Monotone host.clock) {records : List Record} :
    ∀ {s : StreamWriter} {w : World} {latest : ℤ}, s.OnTime host latest w →
      (∀ c ∈ pace host records s latest w, c.stored = true →
        (c.flushed = true ↔ kFlushInterval < c.now - c.latest)) →
      (pace host records s latest w).Pairwise fun a b => a.stored = true → a.flushed = true →
        b.stored = true → b.flushed = true → kFlushInterval < b.now - a.now := by
  induction records with
  | nil => exact fun _ _ => List.Pairwise.nil
  | cons r rs ih =>
      intro s w latest h hexact
      obtain ⟨es, hs⟩ := write_stepped hn h.issued r
      have hlive : live s.index_ = none →
          live (s.write host r.time_ns r.data w).2.1.index_ = none := fun hdead => by
        rw [write, hdead]
        exact hdead
      obtain ⟨hnext, -, hflush⟩ := h.step hclock hs hlive
      rw [pace] at hexact ⊢
      refine List.Pairwise.cons (fun c hc _ hfirst hstored hflushed => ?_)
        (ih hnext fun c hc => hexact c (List.mem_cons_of_mem _ hc))
      obtain ⟨-, hlatest, -⟩ := pace_spec hn hclock hnext c hc
      have hdue := (hexact c (List.mem_cons_of_mem _ hc) hstored).mp hflushed
      -- the first of the two flushes counts for the second one
      rw [hs.journal, List.drop_left, flushes, Bool.and_eq_true] at hfirst
      have := hflush (any_isFlush_of_flushedLast hfirst.1)
      have hnow : (w.now host).1 = host.clock w.ticks := rfl
      change kFlushInterval < c.now - (w.now host).1
      omega

/-- **A run keeps the pace exactly when no record comes between a flush and the end of the interval
after it**, unless it comes in the interval after the files were opened. -/
theorem paced_iff {s₀ : StreamWriter} {request : LogRequest} {w₀ : World} {v latest : ℤ}
    (hn : host.NeverFails) (hclock : Monotone host.clock)
    (hopen : s₀.openFile host request w₀ = (.ret v, s, w)) (hv : 0 < v)
    (records : List Record) :
    let calls := pace host records s (latestFlush host latest w₀ w) w
    KeepsPace calls ↔ ∀ c ∈ calls, c.stored = true →
      c.now - c.last_flush ≤ kFlushInterval ∨ kFlushInterval < c.now - c.latest := by
  intro calls
  have hpos : (Outcome.ret v).positive = true := Outcome.positive_iff.mpr ⟨v, rfl, hv⟩
  obtain ⟨hyes, -⟩ := reopenFile_acts hn (s₀.named request) request.time_ns w₀
  have hsame : (s₀.named request).reopenFile host request.time_ns w₀ = (.ret v, s, w) := hopen
  rw [hsame] at hyes
  obtain ⟨es, hre⟩ := hyes hpos
  have hlatest : latestFlush host latest w₀ w = host.clock w₀.ticks := by
    have hticks : w.ticks = w₀.ticks + 1 := hre.ticks
    rw [latestFlush_eq hre.journal, if_pos hre.flushed, hticks, Nat.add_sub_cancel]
  have hstart : s.OnTime host (latestFlush host latest w₀ w) w := by
    obtain ⟨i, hi, hlt⟩ := hre.index
    rw [hlatest]
    refine ⟨?_, fun _ => hre.last_flush.le, fun n hle => hclock ?_⟩
    · by_cases h0 : (s₀.named request).record_size_ = 0
      · obtain ⟨d, hd, hdlt⟩ := hre.data h0
        exact HasFiles.of_open hi hlt fun _ => ⟨hd, hdlt⟩
      · exact HasFiles.of_open (d := 0) hi hlt fun h => absurd (hre.size.symm.trans h) h0
    · exact (hre.ticks ▸ Nat.le_succ _ : w₀.ticks ≤ w.ticks).trans hle
  have hspec := fun c (hc : c ∈ calls) => (pace_spec hn hclock hstart c hc).2.2
  constructor
  · rintro ⟨hexact, -⟩ c hc hstored
    obtain ⟨-, hflushed⟩ := hspec c hc hstored
    have hiff := hflushed.symm.trans (hexact c hc hstored)
    by_cases hdue : kFlushInterval < c.now - c.last_flush
    · exact Or.inr (hiff.mp hdue)
    · exact Or.inl (not_lt.mp hdue)
  · intro hcond
    have hexact : ∀ c ∈ calls, c.stored = true →
        (c.flushed = true ↔ kFlushInterval < c.now - c.latest) := by
      intro c hc hstored
      obtain ⟨hle, hflushed⟩ := hspec c hc hstored
      rw [hflushed]
      constructor
      · intro hdue
        exact (hcond c hc hstored).resolve_left (not_le.mpr hdue)
      · intro hdue
        omega
    exact ⟨hexact, pace_apart hn hclock hstart hexact⟩

/-- A host whose clock shows a time in nanoseconds at each reading. -/
def showing (clock : ℕ → ℤ) : Host := { Host.january with clock := clock }

/-- A stream of variable-size records, opened at the first reading. -/
def shownOpened (clock : ℕ → ℤ) : Outcome × StreamWriter × World :=
  ({ folder_ := [ascii "r"] } : StreamWriter).openFile (showing clock)
    { channel := ascii "a", size := 0, data := [], time_ns := 1704067200000000000 }
    (.bare [ascii "r"])

/-- Two records written to it. -/
def shownCalls (clock : ℕ → ℤ) : List Call :=
  pace (showing clock) [⟨1704067200000000000, [1, 2]⟩, ⟨1704067201000000000, []⟩]
    (shownOpened clock).2.1
    (latestFlush (showing clock) 0 (.bare [ascii "r"]) (shownOpened clock).2.2)
    (shownOpened clock).2.2

/-- Two records at intervals of two seconds. -/
theorem paced_every_two_seconds : KeepsPace (shownCalls fun n => 2000000000 * n) := by
  obtain ⟨hopen, hcalls⟩ : (shownOpened fun n => 2000000000 * n).1 = .ret 98 ∧
      (shownCalls fun n => 2000000000 * n) =
        [⟨2000000000, 0, 0, true, true⟩, ⟨4000000000, 0, 2000000000, true, true⟩] := by
    decide +kernel
  refine (@paced_iff (showing fun n => 2000000000 * n) (shownOpened fun n => 2000000000 * n).2.1
    (shownOpened fun n => 2000000000 * n).2.2 { folder_ := [ascii "r"] }
    { channel := ascii "a", size := 0, data := [], time_ns := 1704067200000000000 }
    (.bare [ascii "r"]) 98 0 (fun _ => rfl) (fun m n h => ?_) (Prod.ext hopen rfl) (by decide)
    [⟨1704067200000000000, [1, 2]⟩, ⟨1704067201000000000, []⟩]).mpr ?_
  · change (2000000000 * m : ℤ) ≤ 2000000000 * n
    omega
  · change ∀ c ∈ shownCalls fun n => 2000000000 * n, _
    rw [hcalls]
    decide

/-- **Flushes a tenth of a second apart.**  The files are opened at `0`.  The record at two seconds
is flushed, and `last_flush_` stays as it was, so the next one is flushed as well. -/
theorem hurried_flush :
    let clock : ℕ → ℤ := fun n => [0, 2000000000].getD n 2100000000
    (showing clock).NeverFails ∧ Monotone (showing clock).clock ∧
    shownCalls clock =
      [⟨2000000000, 0, 0, true, true⟩, ⟨2100000000, 0, 2000000000, true, true⟩] ∧
    ¬ KeepsPace (shownCalls clock) := by
  intro clock
  have hcalls : shownCalls clock =
      [⟨2000000000, 0, 0, true, true⟩, ⟨2100000000, 0, 2000000000, true, true⟩] := by
    decide +kernel
  refine ⟨fun _ => rfl, monotone_nat_of_le_succ fun n => ?_, hcalls, fun h => ?_⟩
  · rcases n with - | - | n
    · decide
    · decide
    · exact le_rfl
  · rw [hcalls] at h
    have hdue := (h.exact ⟨2100000000, 0, 2000000000, true, true⟩ (by decide) rfl).mp rfl
    exact absurd hdue (by decide)

end StreamWriter

end Tracebox
