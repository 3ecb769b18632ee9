import Tracebox.Stream.Image

/-!
# What the writer does to its files

`StreamWriter.Writes` ties a writer's memory to the stream it is writing: open handles on the two
inodes and an offset that is the end of the data file.  The lemmas below say for every operation
which bytes it appends, in which order, when it returns a positive value:

* `commitRecord_pos`, `writeFixed_pos` — one record, data block before index entry;
* `reopenFile_pos` — two new files beside each other that hold their headers;
* `write_pos` — **a successful `write`**: the stream grows by the record, or a new stream begins
  with it.

Nothing is assumed about the host here.  That no call failed is a consequence of the positive
return value, because every failure is reported.
-/

namespace Tracebox

open Bytes

/-! ## Calls in a row -/

section Calls

variable {host : Host}

open StreamWriter

/-- The calls a flush makes. -/
def flushCalls (flush : Bool) : ℕ := if flush then 1 else 0

/-- Blocks written one after the other, then the flush: on success all bytes are there. -/
lemma tryAll_blocks {f : FileIo} (flush : Bool) (blocks : List Bytes) {w : World}
    (hf : f.inode < w.inodes)
    (h : (tryAll (blocks.map (f.write host) ++ flushIf host flush f) w).1 = true) :
    w.Extends (tryAll (blocks.map (f.write host) ++ flushIf host flush f) w).2
        (Tape.tag f.inode blocks.flatten) ∧
      (tryAll (blocks.map (f.write host) ++ flushIf host flush f) w).2.calls =
        w.calls + (blocks.length + flushCalls flush) := by
  induction blocks generalizing w with
  | nil =>
      cases flush with
      | false => exact ⟨World.Extends.of_eq rfl rfl rfl, rfl⟩
      | true =>
          simp only [List.map_nil, List.nil_append, flushIf, if_true, tryAll] at h ⊢
          split_ifs at h ⊢ with hok
          exact ⟨FileIo.flush_extends f w, by simp [flushCalls]⟩
  | cons b blocks ih =>
      simp only [List.map_cons, List.cons_append, tryAll] at h ⊢
      split_ifs at h ⊢ with hok
      have hw : w.Extends (f.write host b w).2 (Tape.tag f.inode b) :=
        FileIo.write_extends hf (FileIo.write_iff.mp hok)
      obtain ⟨h1, h2⟩ := ih (by rw [hw.inodes]; exact hf) h
      refine ⟨?_, by rw [h2, FileIo.calls_write, List.length_cons]; omega⟩
      rw [List.flatten_cons, Tape.tag_append]
      exact hw.trans h1

/-- They succeed when the host lets each of them pass. -/
lemma tryAll_blocks_iff {f : FileIo} (flush : Bool) (blocks : List Bytes) {w : World} :
    (tryAll (blocks.map (f.write host) ++ flushIf host flush f) w).1 = true ↔
      ∀ k < blocks.length + flushCalls flush, host.outcome (w.calls + k) = .ok := by
  induction blocks generalizing w with
  | nil =>
      cases flush with
      | false => simp [flushIf, tryAll, flushCalls]
      | true =>
          have hone : (f.flush host w).1 = true ↔ host.outcome w.calls = .ok := FileIo.flush_iff
          by_cases hok : (f.flush host w).1 = true
          · simp [flushIf, tryAll, flushCalls, hok, hone.mp hok]
          · have hno : host.outcome w.calls ≠ .ok := fun h => hok (hone.mpr h)
            simp [flushIf, tryAll, flushCalls, hok, hno]
  | cons b blocks ih =>
      have hone : (f.write host b w).1 = true ↔ host.outcome w.calls = .ok := FileIo.write_iff
      simp only [List.map_cons, List.cons_append, tryAll]
      split_ifs with hok
      · rw [ih, FileIo.calls_write]
        constructor
        · intro h k hk
          cases k with
          | zero => exact hone.mp hok
          | succ k =>
              rw [List.length_cons] at hk
              rw [Nat.add_comm k, ← Nat.add_assoc]
              exact h k (by omega)
        · intro h k hk
          rw [Nat.add_assoc, Nat.add_comm 1]
          exact h (k + 1) (by rw [List.length_cons]; omega)
      · simp only [false_iff]
        exact fun h => hok (hone.mpr (h 0 (by simp)))

end Calls

namespace StreamWriter

variable {host : Host}

/-- The writer's memory agrees with the stream it writes into the inodes `i` and `d`. -/
structure Writes (s : StreamWriter) (st : Stream) (i d : ℕ) : Prop where
  name : s.name_ = st.channel
  size : s.record_size_ = st.record_size
  index : s.index_ = some ⟨i, true⟩
  data : st.record_size = 0 → s.data_ = some ⟨d, true⟩
  offset : st.record_size = 0 → s.offset_.toNat = st.endOffset

/-- What a record adds to the tape of its stream. -/
def blocks (st : Stream) (i d : ℕ) (r : Record) : List (ℕ × UInt8) :=
  Tape.tag d (st.dataBlock r) ++ Tape.tag i (st.indexBlock (r, st.endOffset))

/-! ## One record -/

/-- The first stage of `commitRecord`: three appends to the data file and the flush that is due. -/
def dataStage (host : Host) (fd : FileIo) (flush : Bool) (time_ns : UInt64) (data : Bytes)
    (w : World) : Bool × World :=
  tryAll (([toLE 8 time_ns.toNat, toLE 4 (UInt32.ofNat data.length).toNat,
    data.take (UInt32.ofNat data.length).toNat] : List Bytes).map (fd.write host) ++
      flushIf host flush fd) w

/-- The last stage: two appends to the index file and the flush. -/
def indexStage (host : Host) (s : StreamWriter) (fi : FileIo) (flush : Bool) (time_ns : UInt64)
    (w : World) : Bool × World :=
  tryAll (([toLE 8 time_ns.toNat, toLE 4 s.offset_.toNat] : List Bytes).map (fi.write host) ++
    flushIf host flush fi) w

/-- All stages went through, with the fault injector's call in between. -/
def Committed (host : Host) (s : StreamWriter) (fi fd : FileIo) (flush : Bool) (time_ns : UInt64)
    (data : Bytes) (w w' : World) : Prop :=
  ∃ w₁, (dataStage host fd flush time_ns data w).1 = true ∧
    s.inject host (dataStage host fd flush time_ns data w).2 = some w₁ ∧
    (indexStage host s fi flush time_ns w₁).1 = true ∧
    w' = (indexStage host s fi flush time_ns w₁).2

/-- The calls the fault injector makes. -/
def injectCalls (s : StreamWriter) : ℕ := if s.fault_injector_ then 1 else 0

lemma inject_extends {s : StreamWriter} {w w' : World} (h : s.inject host w = some w') :
    w.Extends w' [] ∧ w'.calls = w.calls + s.injectCalls := by
  unfold inject at h
  split_ifs at h with hf hc
  · cases h
    exact ⟨World.Extends.of_eq rfl rfl rfl, by simp [injectCalls, hf]⟩
  · cases h
    exact ⟨World.Extends.of_eq rfl rfl rfl, by simp [injectCalls, hf]⟩

/-- The three stages in the source's order. -/
lemma commitRecord_eq {s : StreamWriter} {fi fd : FileIo} (hi : s.index_ = some fi)
    (hd : s.data_ = some fd) (flush : Bool) (time_ns : UInt64) (data : Bytes) (result : ℤ)
    (w : World) : s.commitRecord host flush time_ns data result w =
      if (dataStage host fd flush time_ns data w).1 then
        match s.inject host (dataStage host fd flush time_ns data w).2 with
        | none => (.thrown, s, (dataStage host fd flush time_ns data w).2.called)
        | some w₁ =>
            if (indexStage host s fi flush time_ns w₁).1 then
              (.ret (toInt (result + totalLength data)),
                { s with offset_ := s.offset_ + (UInt32.ofNat 12 + UInt32.ofNat data.length) },
                (indexStage host s fi flush time_ns w₁).2)
            else (.ret (- EIO), s, (indexStage host s fi flush time_ns w₁).2)
      else (.ret (- EIO), s, (dataStage host fd flush time_ns data w).2) := by
  simp only [commitRecord, hi, hd, Option.getD_some, ite_not]
  rfl

lemma commitRecord_of_committed {s : StreamWriter} {fi fd : FileIo} {flush : Bool}
    {time_ns : UInt64} {data : Bytes} {w w' : World} (hi : s.index_ = some fi)
    (hd : s.data_ = some fd) (h : Committed host s fi fd flush time_ns data w w') (result : ℤ) :
    s.commitRecord host flush time_ns data result w = (.ret (toInt (result + totalLength data)),
      { s with offset_ := s.offset_ + (UInt32.ofNat 12 + UInt32.ofNat data.length) }, w') := by
  obtain ⟨w₁, h1, h2, h3, rfl⟩ := h
  rw [commitRecord_eq hi hd, if_pos h1, h2]
  simp only [h3, if_true]

/-- A positive result means that all stages went through. -/
lemma committed_of_pos {s s' : StreamWriter} {fi fd : FileIo} {flush : Bool} {time_ns : UInt64}
    {data : Bytes} {w w' : World} {result v : ℤ} (hi : s.index_ = some fi)
    (hd : s.data_ = some fd)
    (h : s.commitRecord host flush time_ns data result w = (.ret v, s', w')) (hv : 0 < v) :
    Committed host s fi fd flush time_ns data w w' := by
  have hneg : ¬ (0 : ℤ) < - EIO := by decide
  rw [commitRecord_eq hi hd] at h
  split_ifs at h with h1
  · split at h
    · simp at h
    · rename_i w₁ h2
      split_ifs at h with h3
      · simp only [Prod.mk.injEq] at h
        exact ⟨w₁, h1, h2, h3, h.2.2.symm⟩
      · simp only [Prod.mk.injEq, Outcome.ret.injEq] at h
        exact absurd (h.1 ▸ hv) hneg
  · simp only [Prod.mk.injEq, Outcome.ret.injEq] at h
    exact absurd (h.1 ▸ hv) hneg

/-- **What the three stages do to the files**: the block of the record goes to the data file, then
its time and the position before it to the index file. -/
lemma committed_appends {s : StreamWriter} {fi fd : FileIo} {flush : Bool} {time_ns : UInt64}
    {data : Bytes} {w w' : World} (hi : fi.inode < w.inodes) (hd : fd.inode < w.inodes)
    (h : Committed host s fi fd flush time_ns data w w') :
    w.Extends w'
      (Tape.tag fd.inode (toLE 8 time_ns.toNat ++ (toLE 4 (UInt32.ofNat data.length).toNat ++
        data.take (UInt32.ofNat data.length).toNat)) ++
      Tape.tag fi.inode (toLE 8 time_ns.toNat ++ toLE 4 s.offset_.toNat)) := by
  obtain ⟨w₁, hdata, hinj, hindex, rfl⟩ := h
  obtain ⟨e₁, -⟩ := tryAll_blocks flush _ hd hdata
  obtain ⟨e₂, -⟩ := inject_extends hinj
  have e₁₂ := e₁.trans e₂
  obtain ⟨e₃, -⟩ := tryAll_blocks flush _ (by rw [e₁₂.inodes]; exact hi) hindex
  have e := e₁₂.trans e₃
  simp only [List.flatten_cons, List.flatten_nil, List.append_nil] at e
  exact e

/-- What the three stages do to the files and to the offset. -/
lemma committed_extends {s : StreamWriter} {st : Stream} {i d : ℕ} {w w' : World} {flush : Bool}
    {r : Record} (hs : s.Writes st i d) (h0 : st.record_size = 0) (hi : i < w.inodes)
    (hd : d < w.inodes) (hfit : st.endOffset + 12 + r.data.length ≤ UINT32_MAX)
    (h : Committed host s ⟨i, true⟩ ⟨d, true⟩ flush r.time_ns r.data w w') :
    Writes { s with offset_ := s.offset_ + (UInt32.ofNat 12 + UInt32.ofNat r.data.length) }
        (st.push r) i d ∧ w.Extends w' (blocks st i d r) := by
  have hlen : (UInt32.ofNat r.data.length).toNat = r.data.length := by
    rw [UInt32.toNat_ofNat']
    unfold UINT32_MAX at hfit
    omega
  refine ⟨⟨hs.name, hs.size, hs.index, hs.data, fun _ => ?_⟩, ?_⟩
  · have h12 : (UInt32.ofNat 12).toNat = 12 := rfl
    rw [Stream.endOffset_push, Stream.room, UInt32.toNat_add, UInt32.toNat_add, hs.offset h0, hlen,
      h12]
    unfold UINT32_MAX at hfit
    omega
  · have e := @committed_appends host s ⟨i, true⟩ ⟨d, true⟩ flush r.time_ns
      r.data w w' hi hd h
    simp only [hlen, List.take_length, hs.offset h0] at e
    have hb : blocks st i d r = Tape.tag d (toLE 8 r.time_ns.toNat ++ (toLE 4 r.data.length ++
        r.data)) ++ Tape.tag i (toLE 8 r.time_ns.toNat ++ toLE 4 st.endOffset) := by
      simp [blocks, Stream.dataBlock, Stream.indexBlock, h0]
    rw [hb]
    exact e

/-- The effect of `commitRecord` on success. -/
lemma commitRecord_pos {s s' : StreamWriter} {st : Stream} {i d : ℕ} {w w' : World}
    {flush : Bool} {r : Record} {result v : ℤ} (hs : s.Writes st i d) (h0 : st.record_size = 0)
    (hi : i < w.inodes) (hd : d < w.inodes)
    (hfit : st.endOffset + 12 + r.data.length ≤ UINT32_MAX)
    (h : s.commitRecord host flush r.time_ns r.data result w = (.ret v, s', w')) (hv : 0 < v) :
    s'.Writes (st.push r) i d ∧ w.Extends w' (blocks st i d r) ∧
      v = toInt (result + totalLength r.data) ∧ s'.folder_ = s.folder_ ∧
      s'.fault_injector_ = s.fault_injector_ := by
  have hc := committed_of_pos hs.index (hs.data h0) h hv
  obtain ⟨h1, h2⟩ := committed_extends hs h0 hi hd hfit hc
  rw [commitRecord_of_committed hs.index (hs.data h0) hc] at h
  simp only [Prod.mk.injEq, Outcome.ret.injEq] at h
  obtain ⟨rfl, rfl, -⟩ := h
  exact ⟨h1, h2, rfl, rfl, rfl⟩

/-- The effect of `writeFixed` on success. -/
lemma writeFixed_pos {s s' : StreamWriter} {st : Stream} {i d : ℕ} {w w' : World}
    {flush : Bool} {r : Record} {v : ℤ} (hs : s.Writes st i d) (h0 : st.record_size ≠ 0)
    (hi : i < w.inodes)
    (h : s.writeFixed host ⟨i, true⟩ flush r.time_ns r.data w = (.ret v, s', w')) (hv : 0 < v) :
    s'.Writes (st.push r) i d ∧ w.Extends w' (blocks st i d r) ∧
      r.data.length = st.record_size.toNat ∧
      v = toInt (st.record_size.toNat + sizeofFixedRecordIdx : ℕ) ∧ s' = s := by
  have hneg : ¬ (0 : ℤ) < - EIO ∧ ¬ (0 : ℤ) < -EINVAL := by decide
  have hnil : Tape.tag d (st.dataBlock r) = [] := by simp [Stream.dataBlock, h0]
  unfold writeFixed at h
  split_ifs at h with hsize
  · change (if (tryAll (([toLE 8 r.time_ns.toNat, r.data] : List Bytes).map
      ((⟨i, true⟩ : FileIo).write host) ++ flushIf host flush ⟨i, true⟩) w).1 = true
        then _ else _) = _ at h
    split_ifs at h with hok
    · simp only [Prod.mk.injEq, Outcome.ret.injEq] at h
      obtain ⟨rfl, rfl, rfl⟩ := h
      obtain ⟨e, -⟩ := tryAll_blocks (f := ⟨i, true⟩) flush
        [toLE 8 r.time_ns.toNat, r.data] hi hok
      rw [hs.size] at hsize
      refine ⟨⟨hs.name, hs.size, hs.index, hs.data, fun h => absurd h h0⟩, ?_, hsize, by
        rw [hs.size], rfl⟩
      have hb : blocks st i d r =
          Tape.tag i ([toLE 8 r.time_ns.toNat, r.data] : List Bytes).flatten := by
        simp [blocks, hnil, Stream.indexBlock, h0]
      rw [hb]
      exact e
    · simp only [Prod.mk.injEq, Outcome.ret.injEq] at h
      exact absurd (h.1 ▸ hv) hneg.1
  · simp only [Prod.mk.injEq, Outcome.ret.injEq] at h
    exact absurd (h.1 ▸ hv) hneg.2

/-! ## New files -/

lemma dotIdx_eq : dotIdx = [46, 105, 100, 120] := by decide +kernel

lemma dotData_eq : dotData = [46, 100, 97, 116, 97] := by decide +kernel

lemma notMem_dotIdx : (0 : UInt8) ∉ dotIdx ∧ (47 : UInt8) ∉ dotIdx := by simp [dotIdx_eq]

lemma notMem_dotData : (0 : UInt8) ∉ dotData ∧ (47 : UInt8) ∉ dotData := by simp [dotData_eq]

lemma live_eq_some_iff {h : Option FileIo} {f : FileIo} :
    live h = some f ↔ h = some f ∧ f.is_open = true := by
  simp [live, Option.filter_eq_some_iff]

lemma live_close (f : FileIo) : live (some f.close) = none := by
  simp [live, FileIo.close]

/-- A name the loop of `reopenFile` can try. -/
def Candidate (base name : Bytes) : Prop :=
  name = base ∨ ∃ suffix : ℕ, name = base ++ 95 :: toDec (suffix % 2 ^ 32)

/-- The loop ends on a candidate under which neither file exists. -/
lemma searchName_found {t : Tree} {dir : Path} {base file_name : Bytes} :
    ∀ {fuel suffix : ℕ} {name : Bytes}, Candidate base name →
      searchName t dir base fuel suffix name = .found file_name →
      Candidate base file_name ∧ t.exists_ dir (file_name ++ dotIdx) = some false ∧
        t.exists_ dir (file_name ++ dotData) = some false
  | 0, _, _, _, h => by simp [searchName] at h
  | fuel + 1, suffix, name, hname, h => by
      rw [searchName] at h
      split at h
      · simp at h
      · rename_i htaken
        cases h
        unfold nameTaken at htaken
        split at htaken
        · simp at htaken
        · simp at htaken
        · rename_i hidx
          exact ⟨hname, hidx, htaken⟩
      · exact searchName_found (Or.inr ⟨suffix, rfl⟩) h

lemma notMem_of_exists_false {t : Tree} {dir p : Path} {rel : Bytes}
    (h : t.exists_ dir rel = some false) (hp : t.resolve dir rel = .ok p) :
    t.lookup p = none := by
  rw [Tree.exists_, hp] at h
  simpa using h

/-- How an open handle came about. -/
lemma open_inv {dir : Path} {rel : Bytes} {w : World}
    (h : (FileIo.open_ host dir rel w).1.is_open = true) :
    ∃ p, w.tree.resolve dir rel = .ok p ∧ (w.tree.lookup p = none →
      FileIo.open_ host dir rel w = (⟨w.inodes, true⟩, (w.create p).called)) := by
  unfold FileIo.open_ at h ⊢
  split at h
  · rename_i p _ hp
    refine ⟨p, hp, fun hnone => ?_⟩
    simp [hnone]
  · simp [FileIo.unopened] at h

/-- The effect of `writeHeader` on success. -/
lemma writeHeader_pos {s : StreamWriter} {f : FileIo} {time_ns : UInt64} {type : UInt8}
    {w : World} (hf : f.inode < w.inodes) (h : 0 ≤ (s.writeHeader host f time_ns type w).1) :
    (s.writeHeader host f time_ns type w).1 = (sizeofLogFileHeader : ℤ) ∧
      w.Extends (s.writeHeader host f time_ns type w).2
        (Tape.tag f.inode (s.header time_ns type).encode) := by
  have hneg : ¬ (0 : ℤ) ≤ - EIO ∧ ¬ (0 : ℤ) ≤ -EINVAL := by decide
  unfold writeHeader at h ⊢
  split_ifs at h ⊢ with hopen
  · change 0 ≤ (if (tryAll (([(s.header time_ns type).encode] : List Bytes).map (f.write host) ++
      flushIf host true f) w).1 = true then _ else _ : ℤ × World).1 at h
    change (if (tryAll (([(s.header time_ns type).encode] : List Bytes).map (f.write host) ++
      flushIf host true f) w).1 = true then _ else _ : ℤ × World).1 = _ ∧
        w.Extends (if (tryAll (([(s.header time_ns type).encode] : List Bytes).map (f.write host) ++
      flushIf host true f) w).1 = true then _ else _ : ℤ × World).2 _
    split_ifs at h ⊢ with hok
    · obtain ⟨e, -⟩ := tryAll_blocks true [(s.header time_ns type).encode] hf hok
      refine ⟨rfl, ?_⟩
      simpa [flushIf] using e
    · exact absurd h hneg.1
  · exact absurd h hneg.2

/-- A stream of the writer that was opened at `time_ns`. -/
def stream (s : StreamWriter) (time_ns : UInt64) (records : List Record) : Stream :=
  ⟨s.name_, s.record_size_, time_ns, records⟩

/-- The tape of an empty stream: one header in each file. -/
lemma tape_stream_nil (s : StreamWriter) (time_ns : UInt64) (i d : ℕ) :
    (s.stream time_ns []).tape i d = Tape.tag i (s.header time_ns kIndexFile).encode ++
      Tape.tag d (if s.record_size_ = 0 then (s.header time_ns kDataFile).encode else []) := by
  simp only [stream, Stream.tape, Stream.located, Stream.dataHeader, List.flatMap_nil,
    List.append_nil]
  rfl

/-- The files of a stream lie side by side: `q` is their directory and `leaf` their common name. -/
abbrev indexPath (q : Path) (leaf : Bytes) : Path := q ++ [leaf ++ dotIdx]
/-- The data file beside it. -/
abbrev dataPath (q : Path) (leaf : Bytes) : Path := q ++ [leaf ++ dotData]

/-- What a successful `reopenFile` leaves behind, with the records written since.  The new inodes
are the next two that the host hands out; a stream of fixed-size records takes only the first. -/
structure Opened (host : Host) (s s' : StreamWriter) (w w' : World) (time_ns : UInt64)
    (records : List Record) (q : Path) (leaf : Bytes) : Prop where
  place : ∃ file_name, Candidate (s.fileName host time_ns) file_name ∧
    w.tree.resolve s.folder_ (file_name ++ dotIdx) = .ok (indexPath q leaf)
  index_free : w.tree.lookup (indexPath q leaf) = none
  data_free : s.record_size_ = 0 → w.tree.lookup (dataPath q leaf) = none
  tree : w'.tree = if s.record_size_ = 0 then
    (w.tree.add (indexPath q leaf) (.file w.inodes)).add (dataPath q leaf) (.file (w.inodes + 1))
      else w.tree.add (indexPath q leaf) (.file w.inodes)
  inodes : w'.inodes = w.inodes + if s.record_size_ = 0 then 2 else 1
  tape : w'.tape = w.tape ++ (s.stream time_ns records).tape w.inodes (w.inodes + 1)
  writes : s'.Writes (s.stream time_ns records) w.inodes (w.inodes + 1)
  folder : s'.folder_ = s.folder_
  injector : s'.fault_injector_ = s.fault_injector_

/-- The two extensions end in other letters. -/
lemma append_dotIdx_ne (xs ys : Bytes) : xs ++ dotIdx ≠ ys ++ dotData := by
  intro heq
  have hlast := congrArg List.getLast? heq
  rw [dotIdx_eq, dotData_eq] at hlast
  simp at hlast

lemma indexPath_ne_dataPath (q : Path) (leaf : Bytes) : indexPath q leaf ≠ dataPath q leaf :=
  fun h => append_dotIdx_ne leaf leaf (List.singleton_inj.mp (List.append_cancel_left h))

/-- With the index file there, the place beside it is still free. -/
lemma beside_free {t : Tree} {q : Path} {leaf : Bytes} (n : Node)
    (hindex : t.lookup (indexPath q leaf) = none) (hdata : t.lookup (dataPath q leaf) = none) :
    (t.add (indexPath q leaf) n).lookup (dataPath q leaf) = none := by
  rw [Tree.lookup_add _ hindex, if_neg (indexPath_ne_dataPath q leaf).symm, hdata]

/-- The end of a successful `reopenFile`, with the data file. -/
lemma reopenData_pos {s s' : StreamWriter} {file_name : Bytes} {index : FileIo}
    {time_ns : UInt64} {result v : ℤ} {w w' : World}
    (h : s.reopenData host file_name index time_ns result w = (.ret v, s', w')) (hv : 0 < v) :
    ∃ p, w.tree.resolve s.folder_ (file_name ++ dotData) = .ok p ∧ (w.tree.lookup p = none →
      w'.tree = w.tree.add p (.file w.inodes) ∧ w'.inodes = w.inodes + 1 ∧
      w'.tape = w.tape ++ Tape.tag w.inodes (s.header time_ns kDataFile).encode ∧
      v = result + 49 ∧ s' = { s with
        data_ := some ⟨w.inodes, true⟩, offset_ := UInt32.ofNat 49,
        last_flush_ := s'.last_flush_ }) := by
  have hneg : (-EINVAL : ℤ) < 0 := by decide
  unfold reopenData at h
  by_cases hopen : (FileIo.open_ host s.folder_ (file_name ++ dotData) w).1.is_open = true
  · obtain ⟨p, hp, heq⟩ := open_inv hopen
    refine ⟨p, hp, fun hnone => ?_⟩
    simp only [heq hnone, if_true] at h
    split_ifs at h with hr
    · simp only [Prod.mk.injEq, Outcome.ret.injEq] at h
      omega
    · obtain ⟨hr49, e⟩ := writeHeader_pos (f := ⟨w.inodes, true⟩)
        (w := (w.create p).called)
        (by simp) (not_lt.mp hr)
      simp only [opened, hr49, Prod.mk.injEq, Outcome.ret.injEq] at h
      obtain ⟨rfl, rfl, rfl⟩ := h
      exact ⟨e.tree, e.inodes, e.tape, rfl, rfl⟩
  · simp only [hopen, if_false, hneg, if_true, Prod.mk.injEq, Outcome.ret.injEq,
      Bool.false_eq_true] at h
    omega

/-- Two names that are not taken stand for two free paths side by side, whatever else is created
in the meantime. -/
lemma fresh_pair {t : Tree} {dir p : Path} {file_name : Bytes} (h0 : (0 : UInt8) ∉ file_name)
    (hidx : t.exists_ dir (file_name ++ dotIdx) = some false)
    (hdata : t.exists_ dir (file_name ++ dotData) = some false)
    (hp : t.resolve dir (file_name ++ dotIdx) = .ok p) :
    ∃ q leaf, p = indexPath q leaf ∧ t.lookup (indexPath q leaf) = none ∧
      t.lookup (dataPath q leaf) = none ∧ ∀ t', t.Within t' →
        t'.resolve dir (file_name ++ dotData) = .ok (dataPath q leaf) := by
  have hnone := notMem_of_exists_false hidx hp
  obtain ⟨q, leaf, rfl, hbeside⟩ := Tree.resolve_append h0 notMem_dotIdx.1 notMem_dotIdx.2
    (by simp [dotIdx_eq]) hp
  obtain ⟨hd0, hd47⟩ := notMem_dotData
  have hd3 : 3 ≤ dotData.length := by simp [dotData_eq]
  -- a name that is too long would have thrown
  have hshort : ¬ (Tree.pathTooLong dir (file_name ++ dotData) = true ∨
      Tree.NAME_MAX < (leaf ++ dotData).length) := by
    intro hlong
    have hb := hbeside t (fun _ _ h => h) dotData hd0 hd47 hd3
    rw [if_pos hlong] at hb
    rw [Tree.exists_, hb] at hdata
    simp at hdata
  have hresolve : ∀ t', t.Within t' →
      t'.resolve dir (file_name ++ dotData) = .ok (dataPath q leaf) := by
    intro t' hin
    rw [hbeside t' hin dotData hd0 hd47 hd3, if_neg hshort]
  exact ⟨q, leaf, rfl, hnone, notMem_of_exists_false hdata (hresolve t fun _ _ h => h),
    hresolve⟩

/-- `reopenFile` once the file name is known. -/
lemma reopenAs_pos {s s' : StreamWriter} {file_name : Bytes} {time_ns : UInt64} {w w' : World}
    {v : ℤ} (h : s.reopenAs host file_name time_ns w = (.ret v, s', w')) (hv : 0 < v)
    (h0 : (0 : UInt8) ∉ file_name)
    (hidx : w.tree.exists_ s.folder_ (file_name ++ dotIdx) = some false)
    (hdata : w.tree.exists_ s.folder_ (file_name ++ dotData) = some false)
    (hcand : Candidate (s.fileName host time_ns) file_name) :
    v = (if s.record_size_ = 0 then 98 else 49) ∧
      ∃ q leaf, Opened host s s' w w' time_ns [] q leaf := by
  have hneg : ¬ (0 : ℤ) < -EINVAL := by decide
  unfold reopenAs at h
  by_cases hopen : (FileIo.open_ host s.folder_ (file_name ++ dotIdx) w).1.is_open = true
  · obtain ⟨p, hp, heq⟩ := open_inv hopen
    obtain ⟨q, leaf, rfl, hnone, hfree, hbeside⟩ := fresh_pair h0 hidx hdata hp
    obtain ⟨s₁, hs₁⟩ : ∃ s₁ : StreamWriter, s₁ =
      { s with index_ := some ⟨w.inodes, true⟩ } :=
      ⟨_, rfl⟩
    simp only [heq hnone, not_true_eq_false, if_false, ← hs₁] at h
    obtain ⟨⟨r, w₁⟩, hw₁⟩ : ∃ x, x = s₁.writeHeader host ⟨w.inodes, true⟩
      time_ns kIndexFile
      (w.create (indexPath q leaf)).called := ⟨_, rfl⟩
    have hhead : 0 ≤ r → r = (sizeofLogFileHeader : ℤ) ∧
        (w.create (indexPath q leaf)).called.Extends w₁
          (Tape.tag w.inodes (s₁.header time_ns kIndexFile).encode) := by
      intro hr
      have hpos := @writeHeader_pos host s₁ ⟨w.inodes, true⟩ time_ns kIndexFile
        (w.create (indexPath q leaf)).called (by simp)
      rw [← hw₁] at hpos
      exact hpos hr
    simp only [← hw₁] at h
    split_ifs at h with hr hsize
    · simp only [Prod.mk.injEq, Outcome.ret.injEq] at h
      omega
    · obtain ⟨rfl, e⟩ := hhead (not_le.mp hr).le
      obtain ⟨p, hp', hafter⟩ := reopenData_pos h hv
      have hin : w.tree.Within w₁.tree := fun _ _ hl => by
        rw [e.tree]; exact Tree.lookup_add_of_some _ hl
      obtain rfl : p = dataPath q leaf :=
        Except.ok.inj (hp'.symm.trans (by rw [hs₁]; exact hbeside _ hin))
      obtain ⟨h1, h2, h3, h4, h5⟩ := hafter (by
        rw [e.tree]
        exact beside_free _ hnone hfree)
      have hn : w₁.inodes = w.inodes + 1 := e.inodes
      rw [hn] at h1 h2 h3 h5
      rw [e.tree] at h1
      rw [e.tape] at h3
      subst hs₁ h4
      refine ⟨by rw [if_pos hsize]; rfl, q, leaf, ⟨⟨file_name, hcand, hp⟩,
        hnone, fun _ => hfree, ?_, ?_, ?_, ?_, by rw [h5], by rw [h5]⟩⟩
      · rw [if_pos hsize]; exact h1
      · rw [if_pos hsize]; exact h2
      · rw [h3, tape_stream_nil, if_pos hsize, List.append_assoc]
        rfl
      · rw [h5]
        exact ⟨rfl, rfl, rfl, fun _ => rfl, fun _ => rfl⟩
    · obtain ⟨rfl, e⟩ := hhead (not_le.mp hr).le
      simp only [opened, Prod.mk.injEq, Outcome.ret.injEq] at h
      obtain ⟨rfl, rfl, rfl⟩ := h
      subst hs₁
      refine ⟨by rw [if_neg hsize]; rfl, q, leaf, ⟨⟨file_name, hcand, hp⟩, hnone,
        fun h => absurd h hsize, ?_, ?_, ?_, ?_, rfl, rfl⟩⟩
      · rw [if_neg hsize]; exact e.tree
      · rw [if_neg hsize]; exact e.inodes
      · rw [World.tape_now, e.tape, tape_stream_nil, if_neg hsize, Tape.tag_nil, List.append_nil]
        rfl
      · exact ⟨rfl, rfl, rfl, fun h => absurd h hsize, fun h => absurd h hsize⟩
  · simp only [hopen, not_false_eq_true, if_true, Prod.mk.injEq, Outcome.ret.injEq,
      Bool.false_eq_true] at h
    exact absurd (h.1 ▸ hv) hneg

/-- Every byte of a two-digit field is a digit. -/
lemma isDigit_of_mem_pad2 {n : ℕ} (hn : n < 100) {b : UInt8} (h : b ∈ pad2 n) :
    isDigit b = true := by
  simp only [pad2, List.mem_cons, List.not_mem_nil, or_false] at h
  rcases h with rfl | rfl <;>
  · simp only [isDigit, UInt8.toNat_ofNat', decide_eq_true_eq]
    omega

/-- A byte that is neither a digit nor an underscore comes into a file name by the channel only. -/
lemma notMem_candidate {s : StreamWriter} {time_ns : UInt64} {name : Bytes} {b : UInt8}
    (hb : isDigit b = false) (hu : b ≠ 95) (h : b ∉ s.name_)
    (hc : Candidate (s.fileName host time_ns) name) : b ∉ name := by
  have hpad : ∀ n, n < 100 → b ∉ pad2 n := fun n hn hm => by
    rw [isDigit_of_mem_pad2 hn hm] at hb
    exact Bool.noConfusion hb
  have hbase : b ∉ s.fileName host time_ns := by
    have hh := (host.cal.localtime time_ns).hour_le
    have hm := (host.cal.localtime time_ns).min_le
    have hs := (host.cal.localtime time_ns).sec_le
    simp only [fileName, List.mem_append, List.mem_cons, not_or]
    exact ⟨⟨⟨⟨hpad _ (by omega), hpad _ (by omega)⟩, hpad _ (by omega)⟩, hu, h⟩, hu,
      notMem_toDec hb _⟩
  rcases hc with rfl | ⟨k, rfl⟩
  · exact hbase
  · simp only [List.mem_append, List.mem_cons, not_or]
    exact ⟨hbase, hu, notMem_toDec hb _⟩

/-- **A successful `reopenFile`** creates the index file and, for variable-size records, the data
file beside it. -/
lemma reopenFile_pos {s s' : StreamWriter} {time_ns : UInt64} {w w' : World} {v : ℤ}
    (h : s.reopenFile host time_ns w = (.ret v, s', w')) (hv : 0 < v)
    (h0 : (0 : UInt8) ∉ s.name_) : v = (if s.record_size_ = 0 then 98 else 49) ∧
      ∃ q leaf, Opened host s s' w w' time_ns [] q leaf := by
  simp only [reopenFile] at h
  split at h
  · simp at h
  · simp at h
  · rename_i file_name hfound
    obtain ⟨hcand, hidx, hdata⟩ := searchName_found (Or.inl rfl) hfound
    have hnul : (0 : UInt8) ∉ file_name :=
      notMem_candidate (by decide) (by decide) h0 hcand
    obtain ⟨hval, q, leaf, ho⟩ := reopenAs_pos h hv hnul hidx hdata hcand
    exact ⟨hval, q, leaf, ⟨ho.place, ho.index_free, ho.data_free, ho.tree, ho.inodes, ho.tape,
      ho.writes, ho.folder, ho.injector⟩⟩

/-- `Opened` reads of the writer and the world before only what closing leaves alone. -/
lemma Opened.congr {s t s' : StreamWriter} {w w₀ w' : World} {time_ns : UInt64}
    {records : List Record} {q : Path} {leaf : Bytes} (hname : t.name_ = s.name_)
    (hsize : t.record_size_ = s.record_size_) (hfolder : t.folder_ = s.folder_)
    (hinj : t.fault_injector_ = s.fault_injector_) (e : w.Extends w₀ [])
    (h : Opened host t s' w₀ w' time_ns records q leaf) :
    Opened host s s' w w' time_ns records q leaf := by
  have hfile : t.fileName host time_ns = s.fileName host time_ns := by
    simp only [fileName, hname, hsize]
  have hstream : t.stream time_ns records = s.stream time_ns records := by
    simp only [stream, hname, hsize]
  obtain ⟨place, ifree, dfree, tree, inodes, tape, writes, folder, injector⟩ := h
  rw [hsize, e.tree] at dfree
  rw [hsize, e.tree, e.inodes] at tree
  rw [hsize, e.inodes] at inodes
  rw [hstream, e.tape, e.inodes, List.append_nil] at tape
  rw [hstream, e.inodes] at writes
  rw [hfile, e.tree, hfolder] at place
  rw [e.tree] at ifree
  exact ⟨place, ifree, dfree, tree, inodes, tape, writes, folder.trans hfolder,
    injector.trans hinj⟩

/-- The inodes of an opened stream were handed out. -/
lemma Opened.inodes_lt {s s' : StreamWriter} {w w' : World} {time_ns : UInt64}
    {records : List Record} {q : Path} {leaf : Bytes}
    (h : Opened host s s' w w' time_ns records q leaf) :
    w.inodes < w'.inodes ∧ (s.record_size_ = 0 → w.inodes + 1 < w'.inodes) := by
  rw [h.inodes]
  constructor
  · split_ifs <;> omega
  · intro h0
    rw [if_pos h0]
    omega

/-- One more record behind an opening. -/
lemma Opened.push {s s₁ s' : StreamWriter} {w w₁ w' : World} {time_ns : UInt64}
    {records : List Record} {q : Path} {leaf : Bytes} {r : Record}
    (h : Opened host s s₁ w w₁ time_ns records q leaf)
    (hw : s'.Writes ((s.stream time_ns records).push r) w.inodes (w.inodes + 1))
    (e : w₁.Extends w' (blocks (s.stream time_ns records) w.inodes (w.inodes + 1) r))
    (hfolder : s'.folder_ = s₁.folder_) (hinj : s'.fault_injector_ = s₁.fault_injector_) :
    Opened host s s' w w' time_ns (records ++ [r]) q leaf where
  place := h.place
  index_free := h.index_free
  data_free := h.data_free
  tree := e.tree.trans h.tree
  inodes := e.inodes.trans h.inodes
  tape := by
    have hp := (s.stream time_ns records).tape_push w.inodes (w.inodes + 1) r
    rw [e.tape, h.tape, List.append_assoc]
    exact congrArg (w.tape ++ ·) hp.symm
  writes := hw
  folder := hfolder.trans h.folder
  injector := hinj.trans h.injector

/-! ## A whole write -/

lemma closeHandle_extends (h : Option FileIo) (w : World) :
    w.Extends (closeHandle host h w).2 [] := by
  unfold closeHandle
  split
  · exact FileIo.flush_extends _ w
  · exact World.Extends.of_eq rfl rfl rfl

lemma live_closeHandle (host : Host) (h : Option FileIo) (w : World) :
    live (closeHandle host h w).1 = none := by
  cases hlive : live h with
  | none => simp only [closeHandle, hlive]
  | some f => simp only [closeHandle, hlive, live_close]

/-- A stream whose files were closed has none open. -/
lemma live_closeFile (host : Host) (s : StreamWriter) (w : World) :
    live (s.closeFile host w).1.index_ = none ∧ live (s.closeFile host w).1.data_ = none :=
  ⟨live_closeHandle host s.index_ w, live_closeHandle host s.data_ _⟩

lemma closeFile_extends (s : StreamWriter) (w : World) : w.Extends (s.closeFile host w).2 [] :=
  (closeHandle_extends s.index_ w).trans (closeHandle_extends s.data_ _)

lemma now_extends (host : Host) (w : World) : w.Extends (w.now host).2 [] :=
  World.Extends.of_eq rfl rfl rfl

/-- What a successful write of a variable-size record does. -/
lemma writeVariable_pos {s s' : StreamWriter} {st : Stream} {i d : ℕ} {w w' : World}
    {flush : Bool} {r : Record} {v : ℤ} (hs : s.Writes st i d) (h0 : st.record_size = 0)
    (hi : i < w.inodes) (hd : d < w.inodes) (hnul : (0 : UInt8) ∉ st.channel)
    (hlen : r.data.length + 61 ≤ UINT32_MAX)
    (h : s.writeVariable host flush r.time_ns r.data w = (.ret v, s', w')) (hv : 0 < v) :
    (st.endOffset + 24 + r.data.length ≤ UINT32_MAX ∧ s'.Writes (st.push r) i d ∧
        w.Extends w' (blocks st i d r) ∧ v = toInt (totalLength r.data) ∧
        s'.folder_ = s.folder_ ∧ s'.fault_injector_ = s.fault_injector_) ∨
      (UINT32_MAX < st.endOffset + 24 + r.data.length ∧
        v = toInt (98 + totalLength r.data) ∧
        ∃ q leaf, Opened host s s' w w' r.time_ns [r] q leaf) := by
  have hsize : totalLength r.data = 24 + r.data.length := by
    rw [totalLength, UInt32.toNat_ofNat']
    unfold UINT32_MAX at hlen
    omega
  have hlive : live s.data_ = some ⟨d, true⟩ := by rw [hs.data h0]; rfl
  simp only [writeVariable, hlive] at h
  by_cases hroll : s.rollover r.data = true
  · simp only [hroll, if_true] at h
    have hbig : UINT32_MAX < st.endOffset + 24 + r.data.length := by
      simp only [rollover, hsize, hs.offset h0, decide_eq_true_eq] at hroll
      omega
    refine Or.inr ⟨hbig, ?_⟩
    obtain ⟨c, hc⟩ : ∃ c, c = s.closeFile host w := ⟨_, rfl⟩
    have e₀ : w.Extends c.2 [] := hc ▸ closeFile_extends s w
    have hcs : c.1 = { s with index_ := c.1.index_, data_ := c.1.data_ } := by rw [hc]; rfl
    rw [← hc] at h
    split at h
    · rename_i v₁ s₁ w₁ hre
      split_ifs at h with hv₁
      · simp only [Prod.mk.injEq, Outcome.ret.injEq] at h
        omega
      · obtain ⟨hval, q, leaf, ho⟩ := reopenFile_pos hre (not_le.mp hv₁)
          (by rw [hcs]; simpa [hs.name] using hnul)
        have hsize₀ : s.record_size_ = 0 := hs.size.trans h0
        have ho' : Opened host s s₁ w w₁ r.time_ns [] q leaf :=
          ho.congr (by rw [hcs]) (by rw [hcs]) (by rw [hcs]) (by rw [hcs]) e₀
        obtain ⟨h1, h2, h3, h4, h5⟩ := commitRecord_pos ho'.writes hsize₀ ho'.inodes_lt.1
          (ho'.inodes_lt.2 hsize₀) (by
            simp only [stream, Stream.endOffset, sizeofLogFileHeader, List.map_nil, List.sum_nil]
            omega) h hv
        have hc0 : c.1.record_size_ = 0 := by rw [hcs]; exact hsize₀
        rw [if_pos hc0] at hval
        refine ⟨by rw [h3, hval], q, leaf, ?_⟩
        exact ho'.push h1 h2 h4 h5
    · rename_i hne
      exact absurd h (hne _ _ _)
  · simp only [hroll, if_false, Bool.false_eq_true] at h
    have hsmall : st.endOffset + 24 + r.data.length ≤ UINT32_MAX := by
      simp only [rollover, hsize, hs.offset h0, decide_eq_true_eq] at hroll
      omega
    obtain ⟨h1, h2, h3, h4, h5⟩ := commitRecord_pos hs h0 hi hd (by omega) h hv
    exact Or.inl ⟨hsmall, h1, h2, by rw [h3, zero_add], h4, h5⟩

/-- **A successful `write`.**  Either the stream grows by the record, or the offset would overflow
and a new pair of files begins with it. -/
theorem write_pos {s s' : StreamWriter} {st : Stream} {i d : ℕ} {w w' : World} {r : Record}
    {v : ℤ} (hs : s.Writes st i d) (hi : i < w.inodes) (hd : st.record_size = 0 → d < w.inodes)
    (hnul : (0 : UInt8) ∉ st.channel) (hlen : r.data.length + 61 ≤ UINT32_MAX)
    (h : s.write host r.time_ns r.data w = (.ret v, s', w')) (hv : 0 < v) :
    (s'.Writes (st.push r) i d ∧ w.Extends w' (blocks st i d r) ∧
        (st.record_size = 0 → st.endOffset + 24 + r.data.length ≤ UINT32_MAX) ∧
        (st.record_size ≠ 0 → r.data.length = st.record_size.toNat) ∧
        s'.folder_ = s.folder_ ∧ s'.fault_injector_ = s.fault_injector_) ∨
      (st.record_size = 0 ∧ UINT32_MAX < st.endOffset + 24 + r.data.length ∧
        ∃ q leaf, Opened host s s' w w' r.time_ns [r] q leaf) := by
  have hlive : live s.index_ = some ⟨i, true⟩ := by rw [hs.index]; rfl
  have e₀ := now_extends host w
  simp only [write, hlive] at h
  by_cases h0 : st.record_size = 0
  · simp only [hs.size, h0, ne_eq, not_true_eq_false, if_false] at h
    rcases writeVariable_pos (w := (w.now host).2) hs h0 hi (hd h0) hnul hlen h hv with
      ⟨hsmall, h1, h2, -, h4, h5⟩ | ⟨hbig, -, q, leaf, ho⟩
    · exact Or.inl ⟨h1, e₀.trans h2, fun _ => hsmall, fun h => absurd h0 h, h4, h5⟩
    · exact Or.inr ⟨h0, hbig, q, leaf, ho.congr rfl rfl rfl rfl e₀⟩
  · simp only [hs.size, h0, ne_eq, not_false_eq_true, if_true] at h
    obtain ⟨h1, h2, h3, -, h5⟩ := writeFixed_pos (w := (w.now host).2) hs h0 hi h hv
    exact Or.inl ⟨h1, e₀.trans h2, fun h => absurd h h0, fun _ => h3, by rw [h5], by rw [h5]⟩

end StreamWriter

end Tracebox
