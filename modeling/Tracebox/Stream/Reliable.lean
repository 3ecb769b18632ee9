import Tracebox.Stream.Faults

/-!
# Streams on a host that does not fail

When no call at the file boundary fails, a stream's operations go wrong for reasons that lie in
their arguments and in the file tree only: a path that cannot be resolved, a record of the wrong
size.  Such a failure appends nothing.

* `Openable` — the two files of a stream can be named and the first of them can be created.
* `reopenFile_openable`, `reopenFile_not_openable` — what `reopenFile` does in the two cases.
* `reopenFile_reliable` — under a proper name, the first case is a success.
* `commitRecord_reliable`, `writeFixed_reliable` — a record is appended.
* `write_first` — what the first write of a stream reports.
-/

namespace Tracebox

open Bytes

namespace StreamWriter

variable {host : Host}

/-! ## Calls that do not fail -/

lemma blocks_reliable (hn : host.NeverFails) {f : FileIo} (flush : Bool) (blocks : List Bytes)
    {w : World} (hf : f.inode < w.inodes) :
    (tryAll (blocks.map (f.write host) ++ flushIf host flush f) w).1 = true ∧
      w.Extends (tryAll (blocks.map (f.write host) ++ flushIf host flush f) w).2
        (Tape.tag f.inode blocks.flatten) := by
  have hall : (tryAll (blocks.map (f.write host) ++ flushIf host flush f) w).1 = true :=
    (tryAll_blocks_iff flush blocks).mpr fun k _ => hn _
  exact ⟨hall, (tryAll_blocks flush blocks hf hall).1⟩

lemma writeHeader_reliable (hn : host.NeverFails) (s : StreamWriter) {f : FileIo}
    (time_ns : UInt64) (type : UInt8) {w : World} (hopen : f.is_open = true)
    (hf : f.inode < w.inodes) :
    (s.writeHeader host f time_ns type w).1 = (sizeofLogFileHeader : ℤ) ∧
      w.Extends (s.writeHeader host f time_ns type w).2
        (Tape.tag f.inode (s.header time_ns type).encode) := by
  obtain ⟨hall, -⟩ := blocks_reliable hn true [(s.header time_ns type).encode] hf
  refine writeHeader_pos hf ?_
  have heq : s.writeHeader host f time_ns type w = if (tryAll (([(s.header time_ns type).encode] :
      List Bytes).map (f.write host) ++ flushIf host true f) w).1 = true then
        ((sizeofLogFileHeader : ℤ), (tryAll (([(s.header time_ns type).encode] : List Bytes).map
          (f.write host) ++ flushIf host true f) w).2)
      else (- EIO, (tryAll (([(s.header time_ns type).encode] : List Bytes).map
          (f.write host) ++ flushIf host true f) w).2) := by
    rw [writeHeader, if_pos hopen]
    rfl
  rw [heq, if_pos hall]
  exact Int.natCast_nonneg _

/-- A handle on a path that resolves, unless there is a directory. -/
lemma open_reliable (hn : host.NeverFails) {dir p : Path} {rel : Bytes} {w : World}
    (hp : w.tree.resolve dir rel = .ok p) (hdir : w.tree.lookup p ≠ some .dir) :
    (FileIo.open_ host dir rel w).1.is_open = true ∧
      (FileIo.open_ host dir rel w).1.inode < (FileIo.open_ host dir rel w).2.inodes ∧
      (FileIo.open_ host dir rel w).2.tape = w.tape ∧
      w.inodes ≤ (FileIo.open_ host dir rel w).2.inodes := by
  have hok := hn w.calls
  unfold FileIo.open_
  rw [hok, hp]
  cases hnode : w.tree.lookup p with
  | none => simp [hnode]
  | some n =>
      cases n with
      | dir => exact absurd hnode hdir
      | file i => simpa [hnode] using w.linked p i hnode

/-- No handle on a path that does not resolve. -/
lemma open_unresolved {dir : Path} {rel : Bytes} {w : World} {e : Tree.Errno}
    (he : w.tree.resolve dir rel = .error e) :
    FileIo.open_ host dir rel w = (.unopened, w.called) := by
  unfold FileIo.open_
  rw [he]
  cases host.outcome w.calls <;> rfl

/-! ## New files -/

/-- There is a name for the stream's files, and its index file can be created. -/
def Openable (host : Host) (s : StreamWriter) (time_ns : UInt64) (t : Tree) : Prop :=
  ∃ name, s.freshName host time_ns t = .found name ∧
    ∃ p, t.resolve s.folder_ (name ++ dotIdx) = .ok p

/-- **Without a place for the files** `reopenFile` fails, appends nothing and leaves the stream
closed. -/
lemma reopenFile_not_openable {s s' : StreamWriter} {time_ns : UInt64} {w w' : World}
    {out : Outcome} (hno : ¬ s.Openable host time_ns w.tree)
    (h : s.reopenFile host time_ns w = (out, s', w')) (hclosed : live s.index_ = none) :
    out.positive = false ∧ live s'.index_ = none ∧ s'.data_ = s.data_ ∧
      s'.folder_ = s.folder_ ∧ s'.fault_injector_ = s.fault_injector_ ∧ w.Extends w' [] := by
  have hself : w.Extends w [] := World.Extends.of_eq rfl rfl rfl
  simp only [reopenFile] at h
  split at h
  · cases h
    exact ⟨rfl, hclosed, rfl, rfl, rfl, hself⟩
  · cases h
    exact ⟨rfl, hclosed, rfl, rfl, rfl, hself⟩
  · rename_i file_name hfound
    cases hres : w.tree.resolve s.folder_ (file_name ++ dotIdx) with
    | ok p => exact absurd ⟨file_name, hfound, p, hres⟩ hno
    | error e =>
        simp only [reopenAs, open_unresolved hres, FileIo.unopened, Bool.false_eq_true,
          not_false_eq_true, if_true] at h
        cases h
        exact ⟨rfl, rfl, rfl, rfl, rfl, World.Extends.of_eq rfl rfl rfl⟩

/-- **With a place for the files** the header of the index file is written, and a positive result
means that the stream is ready for its first record. -/
lemma reopenFile_openable (hn : host.NeverFails) {s : StreamWriter} {time_ns : UInt64} {w : World}
    (hopen : s.Openable host time_ns w.tree) :
    ∃ v s' w', s.reopenFile host time_ns w = (.ret v, s', w') ∧
      (∃ t, w'.tape = w.tape ++ t ∧ sizeofLogFileHeader ≤ t.length) ∧
      s'.fault_injector_ = s.fault_injector_ ∧
      (0 < v → ∃ i d, s'.Writes (s.stream time_ns []) i d ∧ i < w'.inodes ∧
        (s.record_size_ = 0 → d < w'.inodes)) := by
  obtain ⟨file_name, hfound, p, hp⟩ := hopen
  obtain ⟨-, hidx, hdata⟩ := searchName_found (Or.inl rfl) hfound
  have hsame : ({ s with offset_ := 0 } : StreamWriter).freshName host time_ns w.tree =
      .found file_name := hfound
  have hfree := notMem_of_exists_false hidx hp
  obtain ⟨hio, hlt, htape, -⟩ := open_reliable hn hp (by simp [hfree])
  simp only [reopenFile, hsame, reopenAs]
  generalize FileIo.open_ host s.folder_ (file_name ++ dotIdx) w = o at hio hlt htape ⊢
  obtain ⟨s₁, hs₁⟩ : ∃ s₁ : StreamWriter, s₁ =
    { s with offset_ := 0, index_ := some o.1 } :=
    ⟨_, rfl⟩
  obtain ⟨hval, hext⟩ := writeHeader_reliable hn s₁ time_ns kIndexFile hio hlt
  have hindex : o.1 = ⟨o.1.inode, true⟩ := by rw [← hio]
  simp only [hio, not_true_eq_false, if_false, ← hs₁]
  generalize s₁.writeHeader host o.1 time_ns kIndexFile o.2 = r at hval hext ⊢
  have hpos : ¬ r.1 ≤ 0 := by
    rw [hval]
    decide
  have hr : r.2.tape = w.tape ++ Tape.tag o.1.inode (s₁.header time_ns kIndexFile).encode := by
    rw [hext.tape, htape]
  have hlen : (Tape.tag o.1.inode (s₁.header time_ns kIndexFile).encode).length =
      sizeofLogFileHeader := by simp
  have hi : o.1.inode < r.2.inodes := by rw [hext.inodes]; exact hlt
  simp only [hpos, if_false]
  by_cases hsize : s.record_size_ = 0
  · simp only [hsize, if_true, reopenData]
    by_cases hdio : (FileIo.open_ host s₁.folder_ (file_name ++ dotData) r.2).1.is_open = true
    · -- the data file opens as well
      obtain ⟨p', hp', -⟩ := open_inv hdio
      have hnotdir : r.2.tree.lookup p' ≠ some .dir := by
        intro hdir
        rw [FileIo.open_, hn, hp'] at hdio
        simp [hdir, FileIo.unopened] at hdio
      obtain ⟨-, hdlt, hdtape, hdinodes⟩ := open_reliable hn hp' hnotdir
      simp only [hdio, if_true]
      generalize FileIo.open_ host s₁.folder_ (file_name ++ dotData) r.2 = od
        at hdio hdlt hdtape hdinodes ⊢
      obtain ⟨hdval, hdext⟩ := writeHeader_reliable hn s₁ time_ns kDataFile hdio hdlt
      have hdata' : od.1 = ⟨od.1.inode, true⟩ := by rw [← hdio]
      generalize s₁.writeHeader host od.1 time_ns kDataFile od.2 = rd at hdval hdext ⊢
      have hneg : ¬ rd.1 < 0 := by
        rw [hdval]
        decide
      simp only [hneg, if_false, opened]
      refine ⟨_, _, _, rfl, ⟨_, by rw [World.tape_now, hdext.tape, hdtape, hr,
        List.append_assoc], by rw [List.length_append, hlen]; omega⟩, by rw [hs₁],
        fun _ => ⟨o.1.inode, od.1.inode, ?_, ?_, fun _ => ?_⟩⟩
      · refine ⟨by rw [hs₁]; rfl, by rw [hs₁]; rfl, ?_, fun _ => ?_, fun _ => ?_⟩
        · rw [hs₁, ← hindex]
        · rw [← hdata']
        · simp [stream, Stream.endOffset, sizeofLogFileHeader]
      · rw [World.inodes_now, hdext.inodes]
        omega
      · rw [World.inodes_now, hdext.inodes]
        exact hdlt
    · simp only [hdio, Bool.false_eq_true, if_false]
      have hneg : (-EINVAL : ℤ) < 0 := by decide
      simp only [hneg, if_true]
      refine ⟨_, _, _, rfl, ⟨Tape.tag o.1.inode (s₁.header time_ns kIndexFile).encode,
        ?_, hlen.ge⟩, by rw [hs₁], fun hv => absurd hv (by decide)⟩
      have hgrow : (FileIo.open_ host s₁.folder_ (file_name ++ dotData) r.2).2.tape =
        r.2.tape := by
        unfold FileIo.open_
        split
        · split <;> rfl
        · rfl
      rw [hgrow, hr]
  · simp only [hsize, if_false, opened]
    refine ⟨_, _, _, rfl, ⟨_, by rw [World.tape_now, hr], hlen.ge⟩, by rw [hs₁],
      fun _ => ⟨o.1.inode, 0, ?_, ?_, False.elim⟩⟩
    · refine ⟨by rw [hs₁]; rfl, by rw [hs₁]; rfl, ?_, fun h => absurd h hsize,
        fun h => absurd h hsize⟩
      rw [hs₁, ← hindex]
    · rw [World.inodes_now]
      exact hi

/-- **A stream under a proper name** whose index file can be created can be opened. -/
lemma reopenFile_reliable (hn : host.NeverFails) {s : StreamWriter} {time_ns : UInt64} {w : World}
    (h0 : (0 : UInt8) ∉ s.name_) (hopen : s.Openable host time_ns w.tree) :
    ∃ v s' w', s.reopenFile host time_ns w = (.ret v, s', w') ∧ 0 < v := by
  obtain ⟨file_name, hfound, p, hp⟩ := hopen
  have hsame : ({ s with offset_ := 0 } : StreamWriter).freshName host time_ns w.tree =
      .found file_name := hfound
  obtain ⟨hcand, hidx, hdata⟩ := searchName_found (Or.inl rfl) hfound
  have hnul : (0 : UInt8) ∉ file_name := notMem_candidate (by decide) (by decide) h0 hcand
  obtain ⟨q, leaf, rfl, hfree, hdfree, hbeside⟩ := fresh_pair hnul hidx hdata hp
  obtain ⟨hio, -, -, -⟩ := open_reliable hn hp (by simp [hfree])
  obtain ⟨p', hp', heq⟩ := open_inv hio
  obtain rfl : indexPath q leaf = p' := Except.ok.inj (hp.symm.trans hp')
  obtain ⟨s₁, hs₁⟩ : ∃ s₁ : StreamWriter,
      s₁ = { s with offset_ := 0, index_ := some ⟨w.inodes, true⟩ } := ⟨_, rfl⟩
  obtain ⟨hval, hext⟩ := writeHeader_reliable hn s₁ time_ns kIndexFile
    (f := ⟨w.inodes, true⟩) rfl (w := (w.create (indexPath q leaf)).called) (by simp)
  simp only [reopenFile, hsame, reopenAs, heq hfree, not_true_eq_false, if_false, ← hs₁]
  generalize s₁.writeHeader host ⟨w.inodes, true⟩ time_ns kIndexFile
    (w.create (indexPath q leaf)).called = r at hval hext ⊢
  have hpos : ¬ r.1 ≤ 0 := by
    rw [hval]
    decide
  simp only [hpos, if_false]
  by_cases hsize : s.record_size_ = 0
  · have htree : r.2.tree = w.tree.add (indexPath q leaf) (.file w.inodes) := hext.tree
    have hin : w.tree.Within r.2.tree := fun _ _ hl => by
      rw [htree]
      exact Tree.lookup_add_of_some _ hl
    have hd : r.2.tree.resolve s₁.folder_ (file_name ++ dotData) = .ok (dataPath q leaf) := by
      rw [hs₁]
      exact hbeside _ hin
    have hdnone : r.2.tree.lookup (dataPath q leaf) = none := by
      rw [htree]
      exact beside_free _ hfree hdfree
    obtain ⟨hdio, hdlt, -, -⟩ := open_reliable hn hd (by simp [hdnone])
    simp only [hsize, if_true, reopenData, hdio]
    generalize FileIo.open_ host s₁.folder_ (file_name ++ dotData) r.2 = od at hdio hdlt ⊢
    obtain ⟨hdval, -⟩ := writeHeader_reliable hn s₁ time_ns kDataFile hdio hdlt
    generalize s₁.writeHeader host od.1 time_ns kDataFile od.2 = rd at hdval ⊢
    have hneg : ¬ rd.1 < 0 := by
      rw [hdval]
      decide
    simp only [hneg, if_false, opened]
    exact ⟨_, _, _, rfl, by rw [hdval]; omega⟩
  · simp only [hsize, if_false, opened]
    exact ⟨_, _, _, rfl, not_le.mp hpos⟩

/-! ## Records -/

/-- **A record of variable size is appended**, and its bytes are reported. -/
lemma commitRecord_reliable (hn : host.NeverFails) {s : StreamWriter} {st : Stream} {i d : ℕ}
    {w : World} (hs : s.Writes st i d) (h0 : st.record_size = 0) (hi : i < w.inodes)
    (hd : d < w.inodes) (flush : Bool) (r : Record)
    (hfit : st.endOffset + 12 + r.data.length ≤ UINT32_MAX) (result : ℤ) :
    ∃ s' w', s.commitRecord host flush r.time_ns r.data result w =
        (.ret (toInt (result + totalLength r.data)), s', w') ∧
      s'.Writes (st.push r) i d ∧ w.Extends w' (blocks st i d r) ∧ s'.folder_ = s.folder_ ∧
      s'.fault_injector_ = s.fault_injector_ := by
  have hok : ∀ n, host.outcome n ≠ .throws := fun n h => by
    rw [hn n] at h
    cases h
  have hpasses : s.Passes host flush w.calls :=
    ⟨fun _ _ => hn _, fun _ => hok _, fun _ _ => hn _⟩
  obtain ⟨w', hc⟩ : ∃ w', Committed host s ⟨i, true⟩ ⟨d, true⟩ flush r.time_ns
    r.data w w' :=
    committed_of_passes hd hpasses
  obtain ⟨hw, he⟩ := committed_extends hs h0 hi hd hfit hc
  exact ⟨_, w', commitRecord_of_committed hs.index (hs.data h0) hc result, hw, he, rfl, rfl⟩

/-- **A record of the announced size is appended**; any other is refused. -/
lemma writeFixed_reliable (hn : host.NeverFails) {s : StreamWriter} {st : Stream} {i d : ℕ}
    {w : World} (hs : s.Writes st i d) (h0 : st.record_size ≠ 0) (hi : i < w.inodes)
    (flush : Bool) (r : Record) :
    (r.data.length = st.record_size.toNat → ∃ w',
      s.writeFixed host ⟨i, true⟩ flush r.time_ns r.data w =
        (.ret (toInt (r.data.length + sizeofFixedRecordIdx : ℕ)), s, w') ∧
      s.Writes (st.push r) i d ∧ w.Extends w' (blocks st i d r)) ∧
    (r.data.length ≠ st.record_size.toNat →
      s.writeFixed host ⟨i, true⟩ flush r.time_ns r.data w = (.ret (-EINVAL), s, w)) := by
  have hnil : Tape.tag d (st.dataBlock r) = [] := by simp [Stream.dataBlock, h0]
  obtain ⟨hok, he⟩ := blocks_reliable hn flush [toLE 8 r.time_ns.toNat, r.data]
    (f := ⟨i, true⟩) hi
  simp only [List.map_cons, List.map_nil] at hok he
  simp only [writeFixed, hs.size]
  refine ⟨fun hsize => ?_, fun hsize => by rw [if_neg hsize]⟩
  simp only [hsize, if_true, hok]
  refine ⟨_, rfl, ⟨hs.name, hs.size, hs.index, hs.data, fun h => absurd h h0⟩, ?_⟩
  have hb : blocks st i d r = Tape.tag i [toLE 8 r.time_ns.toNat, r.data].flatten := by
    simp [blocks, hnil, Stream.indexBlock, h0]
  rw [hb]
  exact he

/-- **The first record of a stream** of less than `2 ^ 30` bytes: what is reported is appended, and
it is within the estimate of the retention code. -/
lemma write_first (hn : host.NeverFails) {s : StreamWriter} {channel : Bytes} {size : UInt32}
    {time_ns : UInt64} {i d : ℕ} {w : World} (hs : s.Writes ⟨channel, size, time_ns, []⟩ i d)
    (hi : i < w.inodes) (hd : size = 0 → d < w.inodes) (r : Record)
    (hdata : r.data.length < 2 ^ 30) :
    ∃ v s' w', s.write host r.time_ns r.data w = (.ret v, s', w') ∧
      v.toNat ≤ maxRecordSize r.data.length ∧
      ∃ t, w'.tape = w.tape ++ t ∧ v.toNat ≤ t.length := by
  have hlive : live s.index_ = some ⟨i, true⟩ := by rw [hs.index]; rfl
  have hsize : s.record_size_ = size := hs.size
  rw [maxRecordSize_of_lt (by omega)]
  simp only [write, hlive, hsize]
  by_cases h0 : size = 0
  · -- the offset of the first record is far from its limit
    have hoff : s.offset_.toNat = sizeofLogFileHeader := hs.offset h0
    have hmod : (UInt32.ofNat r.data.length).toNat = r.data.length := by
      rw [UInt32.toNat_ofNat']
      omega
    have hroll : s.rollover r.data = false := by
      simp only [rollover, totalLength, hmod, hoff, sizeofLogFileHeader, UINT32_MAX,
        decide_eq_false_iff_not]
      omega
    have hdlive : live s.data_ = some ⟨d, true⟩ := by rw [hs.data h0]; rfl
    obtain ⟨s', w', hc, -, he, -⟩ := commitRecord_reliable hn hs h0
      (w := (w.now host).2) hi (hd h0)
      (s.flushDue host w) r (by simp only [Stream.endOffset, List.map_nil, List.sum_nil,
        sizeofLogFileHeader, UINT32_MAX]; omega) 0
    simp only [h0, ne_eq, not_true_eq_false, if_false, writeVariable, hdlive, hroll,
      Bool.false_eq_true, hc]
    have hv : toInt (0 + (totalLength r.data : ℤ)) = ((24 + r.data.length : ℕ) : ℤ) := by
      rw [zero_add, totalLength, hmod, toInt_of_lt (by omega)]
    rw [hv]
    refine ⟨_, _, _, rfl, by rw [Int.toNat_natCast]; omega, _, he.tape, ?_⟩
    have hdlen : ((⟨channel, size, time_ns, []⟩ : Stream).dataBlock r).length = Stream.room r :=
      Stream.length_dataBlock h0 r
    have hilen : ((⟨channel, size, time_ns, []⟩ : Stream).indexBlock
        (r, sizeofLogFileHeader)).length = (⟨channel, size, time_ns, []⟩ : Stream).entrySize :=
      Stream.length_indexBlock fun h => absurd h0 h
    simp only [Stream.room] at hdlen
    simp only [Stream.entrySize, h0, if_true] at hilen
    rw [Int.toNat_natCast, blocks, List.length_append, Tape.length_tag, Tape.length_tag, hdlen]
    simp only [Stream.endOffset, List.map_nil, List.sum_nil, Nat.add_zero, h0] at hilen ⊢
    omega
  · obtain ⟨hfit, hother⟩ := writeFixed_reliable hn hs h0 (w := (w.now host).2) hi
      (s.flushDue host w) r
    simp only [h0, ne_eq, not_false_eq_true, if_true]
    by_cases hlen : r.data.length = size.toNat
    · obtain ⟨w', hf, -, he⟩ := hfit hlen
      have hv : toInt ((r.data.length + sizeofFixedRecordIdx : ℕ) : ℤ) =
          ((r.data.length + sizeofFixedRecordIdx : ℕ) : ℤ) :=
        toInt_of_lt (by simp only [sizeofFixedRecordIdx]; omega)
      have hilen : ((⟨channel, size, time_ns, []⟩ : Stream).indexBlock
          (r, sizeofLogFileHeader)).length = (⟨channel, size, time_ns, []⟩ :
            Stream).entrySize :=
        Stream.length_indexBlock fun _ => hlen
      simp only [Stream.entrySize, h0, if_false] at hilen
      rw [hf, hv]
      refine ⟨_, _, _, rfl, by
        rw [Int.toNat_natCast, sizeofFixedRecordIdx]; omega, _, he.tape, ?_⟩
      rw [Int.toNat_natCast, blocks, List.length_append, Tape.length_tag, Tape.length_tag]
      simp only [Stream.endOffset, List.map_nil, List.sum_nil, Nat.add_zero,
        sizeofFixedRecordIdx] at hilen ⊢
      omega
    · have hz : (-EINVAL : ℤ).toNat = 0 := by decide
      rw [hother hlen]
      exact ⟨_, _, _, rfl, by
        rw [hz]; exact Nat.zero_le _, [], by simp, by rw [hz]; exact le_rfl⟩

end StreamWriter

end Tracebox
