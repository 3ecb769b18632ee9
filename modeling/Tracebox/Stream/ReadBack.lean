import Tracebox.Reader.IndexEntries
import Tracebox.Stream.Image

/-!
# Reading a stream back

What a `StreamReader` returns on files that begin a stream's two files.  The files may be cut
anywhere, and independently of each other: `I` begins the index file and `D` the data file.

The reader keeps two stream positions and two fail bits between calls.  `StreamReader.Holds` is
the invariant that none of its calls ever sets a fail bit on such files, so **every sequence of
reads returns exactly the records that are wholly there** (`StreamReader.reads_make`).
-/

namespace Tracebox

open Bytes

/-- A path that can be the path of an index file: proper components, and `.idx` occurs in the text
as the extension and nowhere else. -/
structure IsIndexPath (p : Path) : Prop where
  canonical : ∀ c ∈ p, c ≠ [] ∧ (47 : UInt8) ∉ c
  only : find dotIdx p.string = some (p.string.length - 4)

instance (p : Path) : Decidable (IsIndexPath p) :=
  decidable_of_iff ((∀ c ∈ p, c ≠ [] ∧ (47 : UInt8) ∉ c) ∧
    find dotIdx p.string = some (p.string.length - 4))
    ⟨fun h => ⟨h.1, h.2⟩, fun h => ⟨h.canonical, h.only⟩⟩

/-- The data file beside an index file. -/
def besideIndex (p : Path) : Path := StreamReader.dataPath p (p.string.length - 4)

/-! ## Input streams -/

lemma IfStream.read_within {bytes : Bytes} {pos n : ℕ} (hn : pos + n ≤ bytes.length) :
    (⟨bytes, pos, true⟩ : IfStream).read n =
    (slice bytes pos n, ⟨bytes, pos + n, true⟩) := by
  simp [read, hn]

@[simp] lemma IfStream.seekg_good (bytes : Bytes) (pos q : ℕ) :
    (⟨bytes, pos, true⟩ : IfStream).seekg q = ⟨bytes, q, true⟩ := rfl

lemma toSize_sub {a b : ℕ} (hb : b ≤ a) (ha : a < 2 ^ 64) : toSize ((a : ℤ) - b) = a - b := by
  rw [← Nat.cast_sub hb, toSize_natCast (by omega)]

/-! ## Headers -/

/-- A file that is long enough gives its header. -/
lemma FileReader.make_of_header {v : View} {path : Path} {bytes : Bytes} {h : LogFileHeader}
    (hlook : v.look path = some (.file bytes)) (hlt : bytes.length < 2 ^ 32)
    (hle : sizeofLogFileHeader ≤ bytes.length)
    (hh : slice bytes 0 sizeofLogFileHeader = h.encode) :
    FileReader.make v path =
      { path_ := path, if_ := ⟨bytes, sizeofLogFileHeader, true⟩, header_ := some h,
        size_bytes_ := bytes.length, overrun := v.overrun path } := by
  have hmod : bytes.length % 2 ^ 32 = bytes.length := Nat.mod_eq_of_lt hlt
  have hne : bytes.length % 2 ^ 32 ≠ 0 := by
    unfold sizeofLogFileHeader at hle
    omega
  obtain ⟨-, -, hmake⟩ := make_of_some hlook
    (make_of_hasHeader hlook (hasHeader_of_slice hh) hne)
  rw [hmake, hmod]

/-- A file cut inside its header gives none. -/
lemma FileReader.make_of_short {v : View} {path : Path} {bytes : Bytes}
    (hlook : v.look path = some (.file bytes)) (hlt : bytes.length < sizeofLogFileHeader) :
    (FileReader.make v path).header_ = none := by
  have hc : FileReader.contentOf v path = bytes := by rw [contentOf, hlook]
  have hshort : ((⟨bytes, 0, true⟩ : IfStream).read sizeofLogFileHeader).2.good = false := by
    have hn : ¬ sizeofLogFileHeader ≤ bytes.length := by omega
    simp [IfStream.read, hn]
  simp only [make, hc]
  split_ifs with h0 h1
  · rfl
  · simp [hshort] at h1
  · rfl

namespace Stream

variable {st : Stream}

@[simp] lemma header_size (st : Stream) (type : UInt8) :
    (st.header type).header_size_.toNat = sizeofLogFileHeader := rfl
@[simp] lemma header_type (st : Stream) (type : UInt8) : (st.header type).file_type_ = type := rfl
@[simp] lemma header_record_size (st : Stream) (type : UInt8) :
    (st.header type).record_size_ = st.record_size := rfl

@[simp] lemma header_entrySize (st : Stream) (type : UInt8) :
    (st.header type).entrySize = st.entrySize := by
  by_cases h : st.record_size = 0 <;>
    simp [LogFileHeader.entrySize, entrySize, h, sizeofFixedRecordIdx, sizeofVariableRecordIdx]

lemma entrySize_pos (st : Stream) : 8 ≤ st.entrySize := by
  unfold entrySize
  split_ifs <;> omega

/-- The complete entries of an index file of which `I` is left. -/
def complete (st : Stream) (I : Bytes) : ℕ := (I.length - sizeofLogFileHeader) / st.entrySize

lemma complete_le (hf : st.Fits) {I : Bytes} (hI : I <+: st.index) :
    st.complete I ≤ st.records.length := by
  have hle := hI.length_le
  rw [length_index hf.sized] at hle
  calc st.complete I ≤ (st.entrySize * st.records.length) / st.entrySize :=
        Nat.div_le_div_right (by omega)
    _ = st.records.length := Nat.mul_div_cancel_left _ (by have := st.entrySize_pos; omega)

/-- In the whole file every entry is complete. -/
lemma complete_index (hf : st.Fits) : st.complete st.index = st.records.length := by
  rw [complete, length_index hf.sized, Nat.add_sub_cancel_left,
    Nat.mul_div_cancel_left _ (by have := st.entrySize_pos; omega)]

/-- A complete entry lies inside what is left of the file. -/
lemma entry_within {I : Bytes} {i : ℕ} (hi : i < st.complete I) :
    sizeofLogFileHeader + st.entrySize * i + st.entrySize ≤ I.length := by
  have hpos := st.entrySize_pos
  have hmul : st.entrySize * (i + 1) ≤ I.length - sizeofLogFileHeader := by
    have h := Nat.mul_le_of_le_div _ _ _ (Nat.succ_le_of_lt hi)
    rwa [Nat.succ_eq_add_one, Nat.mul_comm] at h
  rw [Nat.mul_succ] at hmul
  omega

/-- The bytes of entry `i` in what is left of the file. -/
lemma slice_prefix_index (hf : st.Fits) {I : Bytes} (hI : I <+: st.index) {i : ℕ}
    (hi : i < st.complete I) (hr : i < st.records.length) :
    slice I (sizeofLogFileHeader + st.entrySize * i) st.entrySize =
      st.indexBlock (st.records[i], st.offsetOf i) := by
  rw [slice_of_isPrefix hI (entry_within hi), slice_index hf.sized hr]

lemma entryCount_header {I : Bytes} (hlt : I.length < 2 ^ 32) :
    (st.header kIndexFile).entryCount I = st.complete I := by
  rw [LogFileHeader.entryCount, Nat.mod_eq_of_lt hlt, header_size, header_entrySize, complete]

/-- A window inside entry `i`. -/
lemma slice_entry (hf : st.Fits) {I : Bytes} (hI : I <+: st.index) {i : ℕ}
    (hi : i < st.complete I)
    (hr : i < st.records.length) {k n : ℕ} (hn : k + n ≤ st.entrySize) :
    slice I (sizeofLogFileHeader + i * st.entrySize + k) n =
      slice (st.indexBlock (st.records[i], st.offsetOf i)) k n := by
  rw [← slice_prefix_index hf hI hi hr, Nat.mul_comm i]
  simp only [slice, List.drop_take, List.drop_drop, List.take_take]
  rw [Nat.min_eq_left (by omega)]

lemma entryTime_header (hf : st.Fits) {I : Bytes} (hI : I <+: st.index) {i : ℕ}
    (hi : i < st.complete I) (hr : i < st.records.length) :
    (st.header kIndexFile).entryTime I i = st.records[i].time_ns := by
  have hslice := slice_entry hf hI hi hr (k := 0) (n := 8) (by have := st.entrySize_pos; omega)
  have htime : slice (st.indexBlock (st.records[i], st.offsetOf i)) 0 8 =
      toLE 8 st.records[i].time_ns.toNat := by
    simp [slice, indexBlock]
  rw [LogFileHeader.entryTime, header_size, header_entrySize, ← Nat.add_zero (_ + _),
    hslice, htime]
  simp

lemma entryPayload_header (hf : st.Fits) {I : Bytes} (hI : I <+: st.index)
    (h0 : st.record_size ≠ 0) {i : ℕ} (hi : i < st.complete I) (hr : i < st.records.length) :
    (st.header kIndexFile).entryPayload I i = st.records[i].data := by
  have hsize : st.entrySize = 8 + st.record_size.toNat := by simp [entrySize, h0]
  have hl := hf.sized h0 _ (List.getElem_mem hr)
  rw [LogFileHeader.entryPayload, header_size, header_entrySize, header_record_size,
    slice_entry hf hI hi hr (by omega)]
  simp [slice, indexBlock, h0, ← hl]

lemma entryOffset_header (hf : st.Fits) {I : Bytes} (hI : I <+: st.index) (h0 : st.record_size = 0)
    {i : ℕ} (hi : i < st.complete I) (hr : i < st.records.length) :
    (st.header kIndexFile).entryOffset I i = st.offsetOf i := by
  have hsize : st.entrySize = 12 := by simp [entrySize, h0]
  have hoff : st.offsetOf i < 256 ^ 4 := by
    have h1 := st.offsetOf_le_endOffset i h0
    have h2 := hf.data_lt
    rw [length_dataFile h0] at h2
    omega
  have hoffset : slice (st.indexBlock (st.records[i], st.offsetOf i)) 8 4 =
      toLE 4 (st.offsetOf i) := by
    simp [indexBlock, h0, slice, List.take_of_length_le]
  rw [LogFileHeader.entryOffset, header_size, header_entrySize, slice_entry hf hI hi hr (by omega),
    hoffset, ofLE_toLE hoff]

end Stream

/-! ## The index file -/

section Index

variable {st : Stream} {I : Bytes}

/-- The reader of an index file of which `I` is left, between two calls. -/
structure IndexFileReader.Holds (r : IndexFileReader) (st : Stream) (I : Bytes) : Prop where
  header : r.header_ = some (st.header kIndexFile)
  bytes : r.if_.bytes = I
  good : r.if_.good = true
  size : r.size_bytes_ = I.length
  count : r.records_cnt_ = st.complete I

namespace IndexFileReader

/-- It is a reader of a file with the stream's header. -/
lemma holds_iff {r : IndexFileReader} (hlt : I.length < 2 ^ 32) :
    r.Holds st I ↔ r.Opens (st.header kIndexFile) I := by
  have hmod : I.length % 2 ^ 32 = I.length := Nat.mod_eq_of_lt hlt
  constructor
  · intro h
    exact ⟨h.header, h.bytes, h.good, by rw [h.size, hmod],
      by rw [h.count, Stream.entryCount_header hlt]⟩
  · intro h
    exact ⟨h.header, h.bytes, h.good, by rw [h.size, hmod],
      by rw [h.count, Stream.entryCount_header hlt]⟩

namespace Holds

variable {r : IndexFileReader}

lemma fixedSize (h : r.Holds st I) : r.fixedSize = decide (st.record_size ≠ 0) := by
  simp only [IndexFileReader.fixedSize, h.header, Stream.header_record_size]
  by_cases h0 : st.record_size = 0
  · simp [h0]
  · simp [h0, UInt32.pos_iff_ne_zero]

lemma name (h : r.Holds st I) (hf : st.Fits) : r.name = st.channel := by
  simp only [FileReader.name, h.header]
  exact cString_nameField hf.channel_le hf.channel_nul _

lemma timeOf_lt (h : r.Holds st I) (hf : st.Fits) (hI : I <+: st.index) {i : ℕ}
    (hi : i < st.complete I) (hr : i < st.records.length) :
    (r.timeOf i).1 = st.records[i].time_ns ∧ (r.timeOf i).2.Holds st I := by
  have hlt : I.length < 2 ^ 32 := lt_of_le_of_lt hI.length_le hf.index_lt
  obtain ⟨htime, hgoes⟩ := IndexFileReader.timeOf_lt ((holds_iff hlt).mp h) rfl
    (Stream.entryCount_header hlt ▸ hi)
  exact ⟨by rw [htime, Stream.entryTime_header hf hI hi hr], (holds_iff hlt).mpr hgoes.opens⟩

lemma timeOf_ge (h : r.Holds st I) (hf : st.Fits) (hI : I <+: st.index) {i : ℕ}
    (hi : st.complete I ≤ i) : (r.timeOf i).1 = 0 ∧ (r.timeOf i).2.Holds st I := by
  have hlt : I.length < 2 ^ 32 := lt_of_le_of_lt hI.length_le hf.index_lt
  obtain ⟨htime, hopens, -⟩ := timeOf_error ((holds_iff hlt).mp h)
    (Or.inl (Stream.entryCount_header hlt ▸ hi))
  exact ⟨htime, (holds_iff hlt).mpr hopens⟩

lemma readPayload_lt (h : r.Holds st I) (hf : st.Fits) (hI : I <+: st.index)
    (h0 : st.record_size ≠ 0) {i : ℕ} (hi : i < st.complete I) (hr : i < st.records.length) :
    (r.readPayload i).1 = some st.records[i].data ∧ (r.readPayload i).2.Holds st I := by
  have hlt : I.length < 2 ^ 32 := lt_of_le_of_lt hI.length_le hf.index_lt
  obtain ⟨hdata, hgoes⟩ := IndexFileReader.readPayload_lt ((holds_iff hlt).mp h) h0
    (Stream.entryCount_header hlt ▸ hi)
  exact ⟨by rw [hdata, Stream.entryPayload_header hf hI h0 hi hr], (holds_iff
    hlt).mpr hgoes.opens⟩

lemma readOffset_lt (h : r.Holds st I) (hf : st.Fits) (hI : I <+: st.index)
    (h0 : st.record_size = 0) {i : ℕ} (hi : i < st.complete I) (hr : i < st.records.length) :
    (r.readOffset i).1 = st.offsetOf i ∧ (r.readOffset i).2.Holds st I := by
  have hlt : I.length < 2 ^ 32 := lt_of_le_of_lt hI.length_le hf.index_lt
  obtain ⟨hoffset, hgoes⟩ := IndexFileReader.readOffset_lt ((holds_iff hlt).mp h) h0
    (Stream.entryCount_header hlt ▸ hi)
  exact ⟨by rw [hoffset, Stream.entryOffset_header hf hI h0 hi hr], (holds_iff
    hlt).mpr hgoes.opens⟩

end Holds

/-- The constructor on a file whose header is there. -/
lemma make_holds {v : View} {path : Path} (hlook : v.look path = some (.file I)) (hf : st.Fits)
    (hI : I <+: st.index) (hle : sizeofLogFileHeader ≤ I.length) :
    (make v path).Holds st I ∧
      ∀ h : 0 < st.complete I, ∀ hr : st.complete I ≤ st.records.length,
        (make v path).start_ns_ = st.records[0].time_ns ∧
          (make v path).end_ns_ = st.records[st.complete I - 1].time_ns := by
  have hlt : I.length < 2 ^ 32 := lt_of_le_of_lt hI.length_le hf.index_lt
  have hhead : slice I 0 sizeofLogFileHeader = (st.header kIndexFile).encode := by
    rw [slice_of_isPrefix hI (by omega), Stream.index]
    have := slice_prefix (st.header kIndexFile).encode
      ((Stream.located sizeofLogFileHeader st.records).flatMap st.indexBlock)
    rwa [LogFileHeader.length_encode] at this
  have hheader : (FileReader.make v path).header_ = some (st.header kIndexFile) := by
    rw [FileReader.make_of_header hlook hlt hle hhead]
  obtain ⟨hopens, -, hcached⟩ := make_opens hlook hheader
    (by rw [Nat.mod_eq_of_lt hlt, Stream.header_size]; exact hle)
  refine ⟨(holds_iff hlt).mpr hopens, fun hpos hr => ?_⟩
  obtain ⟨hstart, hend⟩ := hcached rfl (by rw [Stream.entryCount_header hlt]; exact hpos)
  rw [Stream.entryTime_header hf hI hpos (by omega)] at hstart
  rw [Stream.entryCount_header hlt, Stream.entryTime_header hf hI (by omega) (by omega)] at hend
  exact ⟨hstart, hend⟩

/-- The constructor on a file cut inside its header. -/
lemma make_short {v : View} {path : Path} (hlook : v.look path = some (.file I))
    (hlt : I.length < sizeofLogFileHeader) :
    (make v path).header_ = none ∧ (make v path).records_cnt_ = 0 := by
  have h := FileReader.make_of_short hlook hlt
  simp [make, h]

end IndexFileReader

end Index

/-! ## The data file -/

section Data

variable {st : Stream} {D : Bytes}

/-- The reader of a data file of which `D` is left, between two calls. -/
structure DataFileReader.Holds (r : DataFileReader) (st : Stream) (D : Bytes) : Prop where
  header : r.header_ = if sizeofLogFileHeader ≤ D.length then some (st.header kDataFile) else none
  bytes : sizeofLogFileHeader ≤ D.length → r.if_.bytes = D
  good : sizeofLogFileHeader ≤ D.length → r.if_.good = true
  size : sizeofLogFileHeader ≤ D.length → r.size_bytes_ = D.length

namespace DataFileReader

lemma Holds.eq {r : DataFileReader} (h : r.Holds st D) (hle : sizeofLogFileHeader ≤ D.length) :
    ∃ path pos err overrun, r =
      ⟨⟨path, ⟨D, pos, true⟩, some (st.header kDataFile), D.length, err, overrun⟩⟩ := by
  obtain ⟨⟨path, ⟨bytes, pos, good⟩, hdr, size, err, overrun⟩⟩ := r
  have hh := h.header
  have hb := h.bytes hle
  have hg := h.good hle
  have hs := h.size hle
  rw [if_pos hle] at hh
  dsimp only at hh hb hg hs
  subst hh hb hg hs
  exact ⟨_, _, _, _, rfl⟩

lemma holds_mk (hle : sizeofLogFileHeader ≤ D.length) (path : Path) (pos : ℕ)
    (err : Option ReadError) (overrun : Bytes) :
    Holds ⟨⟨path, ⟨D, pos, true⟩, some (st.header kDataFile), D.length, err, overrun⟩⟩
      st D :=
  ⟨by rw [if_pos hle], fun _ => rfl, fun _ => rfl, fun _ => rfl⟩

lemma Holds.name {r : DataFileReader} (h : r.Holds st D) (hf : st.Fits) :
    r.name = if sizeofLogFileHeader ≤ D.length then st.channel else [] := by
  simp only [FileReader.name, h.header]
  split_ifs with hle
  · exact cString_nameField hf.channel_le hf.channel_nul _
  · rfl

lemma make_holds {v : View} {path : Path} (hlook : v.look path = some (.file D)) (hf : st.Fits)
    (h0 : st.record_size = 0) (hD : D <+: st.dataFile) : (make v path).Holds st D := by
  by_cases hle : sizeofLogFileHeader ≤ D.length
  · have hlt : D.length < 2 ^ 32 := lt_of_le_of_lt hD.length_le hf.data_lt
    have hhead : slice D 0 sizeofLogFileHeader = (st.header kDataFile).encode := by
      rw [slice_of_isPrefix hD (by omega), Stream.dataFile, Stream.dataHeader, if_pos h0]
      have := slice_prefix (st.header kDataFile).encode (st.records.flatMap st.dataBlock)
      rwa [LogFileHeader.length_encode] at this
    rw [make, FileReader.make_of_header hlook hlt hle hhead]
    exact holds_mk hle _ _ _ _
  · refine ⟨?_, fun h => absurd h hle, fun h => absurd h hle, fun h => absurd h hle⟩
    rw [if_neg hle]
    exact FileReader.make_of_short hlook (by omega)

/-- The two parts of the data block of record `i` in what is left of the file. -/
lemma slice_block (h0 : st.record_size = 0) (hD : D <+: st.dataFile) {i : ℕ}
    (hi : i < st.records.length) {k n : ℕ} (hn : k + n ≤ Stream.room st.records[i])
    (hw : st.offsetOf i + k + n ≤ D.length) :
    slice D (st.offsetOf i + k) n = slice (st.dataBlock st.records[i]) k n := by
  rw [slice_of_isPrefix hD hw, ← Stream.slice_dataFile h0 hi]
  simp only [slice, List.drop_take, List.drop_drop, List.take_take]
  rw [Nat.min_eq_left (by omega)]

/-- The record header at record `i`, where it is wholly there. -/
lemma read_header (hf : st.Fits) (h0 : st.record_size = 0) (hD : D <+: st.dataFile) {i : ℕ}
    (hi : i < st.records.length) (hw : st.offsetOf i + 12 ≤ D.length) :
    ∃ t : Bytes, (⟨D, st.offsetOf i, true⟩ : IfStream).read 12 =
        (t, ⟨D, st.offsetOf i + 12, true⟩) ∧
      UInt64.ofNat (ofLE (slice t 0 8)) = st.records[i].time_ns ∧
      ofLE (slice t 8 4) = st.records[i].data.length := by
  have hle : st.records[i].data.length < 256 ^ 4 := by
    have h1 := st.offsetOf_le_endOffset (i + 1) h0
    have h2 := hf.data_lt
    rw [Stream.length_dataFile h0] at h2
    rw [Stream.offsetOf_succ hi, Stream.room] at h1
    omega
  have hblock : slice (st.dataBlock st.records[i]) 0 12 =
      toLE 8 st.records[i].time_ns.toNat ++ toLE 4 st.records[i].data.length := by
    rw [slice, Stream.dataBlock, if_pos h0, List.drop_zero, ← List.append_assoc]
    exact List.take_left' (by simp)
  have hread := slice_block h0 hD hi (k := 0) (n := 12) (by simp [Stream.room]) hw
  rw [hblock, Nat.add_zero] at hread
  refine ⟨_, by rw [IfStream.read_within hw, hread], ?_, ?_⟩
  · simp [slice]
  · simp [slice, List.take_of_length_le, ofLE_toLE hle]

/-- A record that is wholly there is read. -/
lemma read_complete {r : DataFileReader} (h : r.Holds st D) (hf : st.Fits)
    (h0 : st.record_size = 0) (hD : D <+: st.dataFile) {i : ℕ} (hi : i < st.records.length)
    (hw : st.offsetOf (i + 1) ≤ D.length) :
    (r.read (st.offsetOf i)).1 = st.records[i].data.length ∧
      (r.read (st.offsetOf i)).2.1 = some st.records[i].piece ∧
      (r.read (st.offsetOf i)).2.2.last_error_ = none ∧
      (r.read (st.offsetOf i)).2.2.Holds st D := by
  have h49 : sizeofLogFileHeader ≤ st.offsetOf i := Nat.le_add_right _ _
  rw [Stream.offsetOf_succ hi, Stream.room] at hw
  have hle : sizeofLogFileHeader ≤ D.length := by omega
  have hlt : D.length < 2 ^ 32 := lt_of_le_of_lt hD.length_le hf.data_lt
  obtain ⟨path, pos, err, overrun, rfl⟩ := h.eq hle
  obtain ⟨t, ht, htime, hsize⟩ := read_header hf h0 hD hi (by omega)
  have hdata : (⟨D, st.offsetOf i + 12, true⟩ : IfStream).read st.records[i].data.length =
      (st.records[i].data, ⟨D, st.offsetOf i + 12 + st.records[i].data.length, true⟩) := by
    rw [IfStream.read_within (by omega), slice_block h0 hD hi (by simp [Stream.room]) (by omega),
      slice, Stream.dataBlock, if_pos h0, ← List.append_assoc, List.drop_left' (by simp),
      List.take_length]
  have hb1 : toSize ((D.length : ℤ) - (12 : ℕ)) = D.length - 12 :=
    toSize_sub (by omega) (by omega)
  have hb2 : toSize ((D.length : ℤ) - st.offsetOf i - (12 : ℕ)) =
    D.length - st.offsetOf i - 12 := by
    have := toSize_sub (a := D.length) (b := st.offsetOf i + 12) (by omega) (by omega)
    rw [Nat.sub_sub, ← this]
    congr 1
    push_cast
    ring
  have hn1 : ¬ (D.length < sizeofLogFileHeader ∨ st.offsetOf i < sizeofLogFileHeader ∨
      D.length - 12 < st.offsetOf i) := by omega
  have hn2 : ¬ D.length - st.offsetOf i - 12 < st.records[i].data.length := by omega
  have heq : DataFileReader.read
    ⟨⟨path, ⟨D, pos, true⟩, some (st.header kDataFile), D.length, err,
      overrun⟩⟩ (st.offsetOf i) = (st.records[i].data.length, some st.records[i].piece,
        ⟨⟨path, ⟨D, st.offsetOf i + 12 + st.records[i].data.length, true⟩,
          some (st.header kDataFile), D.length, none, overrun⟩⟩) := by
    simp only [DataFileReader.read, FileReader.clear_error, Stream.header_size,
      Stream.header_type, sizeofVariableRecordDataHeader, hb1, hb2, hn1, IfStream.seekg_good, ht,
      htime, hsize, hn2, hdata, ne_eq, not_true_eq_false, or_false, if_false, Record.piece]
  rw [heq]
  exact ⟨rfl, rfl, rfl, holds_mk hle _ _ _ _⟩

/-- A record that is not wholly there is refused. -/
lemma read_beyond {r : DataFileReader} (h : r.Holds st D) (hf : st.Fits)
    (h0 : st.record_size = 0) (hD : D <+: st.dataFile) {i : ℕ} (hi : i < st.records.length)
    (hw : D.length < st.offsetOf (i + 1)) :
    (r.read (st.offsetOf i)).1 = 0 ∧ (r.read (st.offsetOf i)).2.2.last_error_ ≠ none ∧
      (r.read (st.offsetOf i)).2.2.Holds st D := by
  by_cases hle : sizeofLogFileHeader ≤ D.length
  · have h49 : sizeofLogFileHeader ≤ st.offsetOf i := Nat.le_add_right _ _
    have hs : sizeofLogFileHeader = 49 := rfl
    have hlt : D.length < 2 ^ 32 := lt_of_le_of_lt hD.length_le hf.data_lt
    have hb1 : toSize ((D.length : ℤ) - (12 : ℕ)) = D.length - 12 :=
      toSize_sub (by omega) (by omega)
    obtain ⟨path, pos, err, overrun, rfl⟩ := h.eq hle
    rw [Stream.offsetOf_succ hi, Stream.room] at hw
    by_cases hoff : D.length - 12 < st.offsetOf i
    · simp only [DataFileReader.read, FileReader.clear_error, Stream.header_size,
        sizeofVariableRecordDataHeader, hb1, hoff, true_or, or_true, if_true, withError,
        FileReader.log_error]
      exact ⟨trivial, by simp, holds_mk hle _ _ _ _⟩
    · obtain ⟨t, ht, htime, hsize⟩ := read_header hf h0 hD hi (by omega)
      have hb2 : toSize ((D.length : ℤ) - st.offsetOf i - (12 : ℕ)) =
          D.length - st.offsetOf i - 12 := by
        have := toSize_sub (a := D.length) (b := st.offsetOf i + 12) (by omega) (by omega)
        rw [Nat.sub_sub, ← this]
        congr 1
        push_cast
        ring
      have hn1 : ¬ (D.length < sizeofLogFileHeader ∨ st.offsetOf i < sizeofLogFileHeader) := by
        omega
      have hn2 : D.length - st.offsetOf i - 12 < st.records[i].data.length := by omega
      simp only [DataFileReader.read, FileReader.clear_error, Stream.header_size,
        Stream.header_type, sizeofVariableRecordDataHeader, hb1, hb2, hoff, IfStream.seekg_good,
        ht, hsize, hn2, ← or_assoc, hn1, ne_eq, not_true_eq_false, or_self, if_false, if_true,
        withError, FileReader.log_error]
      exact ⟨trivial, by simp, holds_mk hle _ _ _ _⟩
  · have hnone : r.header_ = none := by rw [h.header, if_neg hle]
    simp only [DataFileReader.read, FileReader.clear_error, hnone, withError, FileReader.log_error]
    exact ⟨trivial, by simp, ⟨by rw [if_neg hle], fun hd => absurd hd hle,
      fun hd => absurd hd hle, fun hd => absurd hd hle⟩⟩

end DataFileReader

end Data

/-! ## The stream -/

section Pair

variable {st : Stream} {I D : Bytes}

/-- What a read of record `i` should return when `I` and `D` are left of the two files: the record,
if its entry and its data are wholly there.  A record with time `0` counts as unreadable. -/
def Stream.visible (st : Stream) (I D : Bytes) (i : ℕ) : Option DataPiece :=
  match st.records[i]? with
  | none => none
  | some r =>
      if i < st.complete I ∧ r.time_ns ≠ 0 ∧
          (st.record_size = 0 → st.offsetOf (i + 1) ≤ D.length) then some r.piece else none

/-- The reader of a stream of whose files `I` and `D` are left, between two calls.  When the data
file is cut inside its header the names can differ, and then the reader is not healthy. -/
structure StreamReader.Holds (r : StreamReader) (st : Stream) (I D : Bytes) : Prop where
  index : ∃ index, r.index_ = some index ∧ index.Holds st I
  data : st.record_size = 0 → ∃ data, r.data_ = some data ∧ data.Holds st D
  status : r.status_ = .kHealthy ∨
    (st.record_size = 0 ∧ D.length < sizeofLogFileHeader)

namespace StreamReader

lemma visible_eq {i : ℕ} (hr : i < st.records.length) :
    st.visible I D i = if i < st.complete I ∧ st.records[i].time_ns ≠ 0 ∧
      (st.record_size = 0 → st.offsetOf (i + 1) ≤ D.length) then some st.records[i].piece
        else none := by
  rw [Stream.visible, List.getElem?_eq_getElem hr]

/-- Nothing but the record itself is ever visible. -/
lemma visible_or (st : Stream) (I D : Bytes) (i : ℕ) : st.visible I D i = none ∨
    ∃ r, st.records[i]? = some r ∧ st.visible I D i = some r.piece := by
  unfold Stream.visible
  split
  · exact Or.inl rfl
  · rename_i r hr
    split_ifs
    · exact Or.inr ⟨r, hr, rfl⟩
    · exact Or.inl rfl

lemma visible_eq_none {i : ℕ} (h : st.complete I ≤ i ∨
    (st.record_size = 0 ∧ D.length < st.offsetOf (i + 1))) : st.visible I D i = none := by
  unfold Stream.visible
  split
  · rfl
  · refine if_neg fun ⟨hi, _, hd⟩ => ?_
    rcases h with h | ⟨h0, h⟩
    · omega
    · have := hd h0
      omega

/-- In the whole files every record with a time is visible. -/
lemma visible_whole (hf : st.Fits) {i : ℕ} {r : Record} (hr : st.records[i]? = some r)
    (ht : r.time_ns ≠ 0) : st.visible st.index st.dataFile i = some r.piece := by
  have hi := (List.getElem?_eq_some_iff.mp hr).1
  have hdata : st.record_size = 0 → st.offsetOf (i + 1) ≤ st.dataFile.length := fun h0 => by
    rw [Stream.length_dataFile h0]
    exact st.offsetOf_le_endOffset (i + 1) h0
  unfold Stream.visible
  simp only [hr]
  exact if_pos ⟨by rwa [Stream.complete_index hf], ht, hdata⟩

/-- The variable-size branch of `read`, behind a complete index entry. -/
lemma readVariable_holds {r : StreamReader} {index : IndexFileReader} (hx : index.Holds st I)
    (h : r.Holds st I D) (hs : r.status_ = .kHealthy) (hf : st.Fits) (hI : I <+: st.index)
    (h0 : st.record_size = 0) (hD : D <+: st.dataFile) {i : ℕ} (hi : i < st.complete I)
    (hr : i < st.records.length) :
    (r.readVariable index i).1 =
        (if st.offsetOf (i + 1) ≤ D.length then some st.records[i].piece else none) ∧
      (r.readVariable index i).2.Holds st I D := by
  obtain ⟨data, hdata, hdh⟩ := h.data h0
  obtain ⟨hoff, hoh⟩ := hx.readOffset_lt hf hI h0 hi hr
  have hne : st.offsetOf i ≠ 0 := by
    have : sizeofLogFileHeader ≤ st.offsetOf i := Nat.le_add_right _ _
    unfold sizeofLogFileHeader at this
    omega
  by_cases hw : st.offsetOf (i + 1) ≤ D.length
  · obtain ⟨h1, h2, h3, h4⟩ := DataFileReader.read_complete hdh hf h0 hD hr hw
    simp only [readVariable, hdata, hoff, hne, if_false, h2, h3, ne_eq,
      not_true_eq_false, and_false, Option.getD_some, hw, if_true, true_and]
    exact ⟨⟨_, rfl, hoh⟩, fun _ => ⟨_, rfl, h4⟩, Or.inl hs⟩
  · obtain ⟨h1, h2, h3⟩ := DataFileReader.read_beyond hdh hf h0 hD hr (by omega)
    simp only [readVariable, hdata, hoff, hne, if_false, h1, h2, ne_eq, not_false_eq_true, and_self,
      if_true, hw, true_and]
    exact ⟨⟨_, rfl, hoh⟩, fun _ => ⟨_, rfl, h3⟩, Or.inl hs⟩

/-- One `read` returns what is visible and keeps the invariant. -/
lemma read_holds {r : StreamReader} (h : r.Holds st I D) (hf : st.Fits) (hI : I <+: st.index)
    (hD : st.record_size = 0 → D <+: st.dataFile) (i : ℕ) :
    (r.read i).1 = st.visible I D i ∧ (r.read i).2.Holds st I D := by
  obtain ⟨index_, data_, status_⟩ := r
  obtain ⟨index, hindex, hx⟩ := h.index
  dsimp only at hindex
  subst hindex
  by_cases hs : status_ = .kHealthy
  · subst hs
    by_cases hi : i < st.complete I
    · have hr := hi.trans_le (Stream.complete_le hf hI)
      obtain ⟨ht, hth⟩ := hx.timeOf_lt hf hI hi hr
      have hnext : (⟨some (index.timeOf i).2, data_, .kHealthy⟩ : StreamReader).Holds st I D :=
        ⟨⟨_, rfl, hth⟩, h.data, Or.inl rfl⟩
      rw [visible_eq hr]
      by_cases ht0 : st.records[i].time_ns = 0
      · simp only [read, ne_eq, not_true_eq_false, if_false, ht, ht0, if_true,
          false_and, and_false]
        exact ⟨trivial, hnext⟩
      · by_cases h0 : st.record_size = 0
        · have hv := readVariable_holds hth hnext rfl hf hI h0 (hD h0) hi hr
          simp only [read, ne_eq, not_true_eq_false, if_false, ht, ht0, hth.fixedSize,
            h0, decide_false, Bool.false_eq_true, hi, not_false_eq_true, true_and, forall_const]
          exact hv
        · obtain ⟨hp, hph⟩ := hth.readPayload_lt hf hI h0 hi hr
          simp only [read, ne_eq, not_true_eq_false, if_false, ht, ht0, hth.fixedSize,
            h0, not_false_eq_true, decide_true, if_true, readFixed, hp, Option.map_some, hi,
            false_implies, and_self, Record.piece, true_and]
          exact ⟨⟨_, rfl, hph⟩, h.data, Or.inl rfl⟩
    · obtain ⟨ht, hth⟩ := hx.timeOf_ge hf hI (i := i) (by omega)
      rw [visible_eq_none (Or.inl (by omega))]
      simp only [read, ne_eq, not_true_eq_false, if_false, ht, if_true]
      exact ⟨trivial, ⟨_, rfl, hth⟩, h.data, Or.inl rfl⟩
  · -- the data file is cut inside its header, so no record is visible
    obtain ⟨h0, hlt⟩ := h.status.resolve_left hs
    have h49 : sizeofLogFileHeader ≤ st.offsetOf (i + 1) := Nat.le_add_right _ _
    rw [visible_eq_none (Or.inr ⟨h0, by omega⟩)]
    simp only [read, hs, ne_eq, not_false_eq_true, if_true]
    exact ⟨trivial, h⟩

/-- A whole run of reads. -/
lemma reads_holds {r : StreamReader} (h : r.Holds st I D) (hf : st.Fits) (hI : I <+: st.index)
    (hD : st.record_size = 0 → D <+: st.dataFile) (is : List ℕ) :
    (r.reads is).1 = is.map (st.visible I D) ∧ (r.reads is).2.Holds st I D := by
  induction is generalizing r with
  | nil => exact ⟨rfl, h⟩
  | cons i is ih =>
      obtain ⟨h1, h2⟩ := read_holds h hf hI hD i
      obtain ⟨h3, h4⟩ := ih h2
      exact ⟨by rw [reads, List.map_cons, h1, h3], h4⟩

/-- The index file is shown at `p` with content `I`, and the data file beside it with content
`D`. -/
structure Shows (v : View) (p : Path) (st : Stream) (I D : Bytes) : Prop where
  index : v.look p = some (.file I)
  data : st.record_size = 0 → v.look (besideIndex p) = some (.file D)
  index_prefix : I <+: st.index
  data_prefix : st.record_size = 0 → D <+: st.dataFile

/-- The constructor on an index without a complete entry. -/
lemma make_empty {v : View} {p : Path} (hv : Shows v p st I D) (hp : IsIndexPath p)
    (hf : st.Fits) (hc : st.complete I = 0) :
    (make v p).records_cnt = some 0 ∧ (make v p).status_ = .kEmpty := by
  have hcnt : (IndexFileReader.make v p).records_cnt_ = 0 := by
    by_cases hle : sizeofLogFileHeader ≤ I.length
    · rw [(IndexFileReader.make_holds hv.index hf hv.index_prefix hle).1.count, hc]
    · exact (IndexFileReader.make_short hv.index (by omega)).2
  simp [make, is_regular_file, hv.index, hp.only, hcnt, records_cnt]

/-- The constructor on an index with complete entries. -/
lemma make_holds {v : View} {p : Path} (hv : Shows v p st I D) (hp : IsIndexPath p)
    (hf : st.Fits) (hc : 0 < st.complete I) :
    (make v p).Holds st I D ∧ (make v p).index_ = some (IndexFileReader.make v p) := by
  have hle : sizeofLogFileHeader ≤ I.length := by
    by_contra hlt
    have : st.complete I = 0 := by
      rw [Stream.complete, Nat.sub_eq_zero_of_le (by omega), Nat.zero_div]
    omega
  have hx := (IndexFileReader.make_holds hv.index hf hv.index_prefix hle).1
  have hcnt : (IndexFileReader.make v p).records_cnt_ ≠ 0 := by rw [hx.count]; omega
  by_cases h0 : st.record_size = 0
  · have hdh := DataFileReader.make_holds (hv.data h0) hf h0 (hv.data_prefix h0)
    have heq : make v p = ⟨some (IndexFileReader.make v p),
        some (DataFileReader.make v (besideIndex p)),
        if (DataFileReader.make v (besideIndex p)).name = (IndexFileReader.make v p).name then
          .kHealthy else .kHeadersDifferent⟩ := by
      simp only [make, is_regular_file, hv.index, hp.only, hcnt, hx.fixedSize, h0, besideIndex,
        ne_eq, not_true_eq_false, decide_false, Bool.false_eq_true, if_false, ite_not]
      congr
    rw [heq]
    refine ⟨⟨⟨_, rfl, hx⟩, fun _ => ⟨_, rfl, hdh⟩, ?_⟩, rfl⟩
    by_cases hd : sizeofLogFileHeader ≤ D.length
    · left
      simp [hx.name hf, hdh.name hf, hd]
    · exact Or.inr ⟨h0, by omega⟩
  · have heq : make v p = ⟨some (IndexFileReader.make v p), none, .kHealthy⟩ := by
      simp [make, is_regular_file, hv.index, hp.only, hcnt, hx.fixedSize, h0]
    rw [heq]
    exact ⟨⟨⟨_, rfl, hx⟩, fun h => absurd h h0, Or.inl rfl⟩, rfl⟩

/-- The reader counts the complete index entries. -/
lemma records_cnt_make {v : View} {p : Path} (hv : Shows v p st I D) (hp : IsIndexPath p)
    (hf : st.Fits) : (make v p).records_cnt = some (st.complete I) := by
  rcases Nat.eq_zero_or_pos (st.complete I) with hc | hc
  · rw [(make_empty hv hp hf hc).1, hc]
  · obtain ⟨hh, -⟩ := make_holds hv hp hf hc
    obtain ⟨index, hindex, hx⟩ := hh.index
    rw [records_cnt, hindex, Option.map_some, hx.count]

/-- **Every sequence of reads returns exactly what is visible.** -/
theorem reads_make {v : View} {p : Path} (hv : Shows v p st I D) (hp : IsIndexPath p)
    (hf : st.Fits) (is : List ℕ) : ((make v p).reads is).1 = is.map (st.visible I D) := by
  rcases Nat.eq_zero_or_pos (st.complete I) with hc | hc
  · have hs := (make_empty hv hp hf hc).2
    have hread : ∀ i, (make v p).read i = (none, make v p) := by
      intro i
      unfold read
      split
      · rfl
      · simp [hs]
    induction is with
    | nil => rfl
    | cons i is ih =>
        rw [reads, hread, List.map_cons, visible_eq_none (Or.inl (by omega))]
        simpa using ih
  · exact (reads_holds (make_holds hv hp hf hc).1 hf hv.index_prefix hv.data_prefix is).1

end StreamReader

end Pair

end Tracebox
