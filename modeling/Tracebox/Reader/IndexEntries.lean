import Tracebox.Reader.StreamReader

/-!
# The entries of an index file

What an `IndexFileReader` makes of a file with the header `h` and the bytes `I`, whoever wrote them.

* `LogFileHeader.entryCount`, `entryTime`, `entryOffset` — the entries that are wholly there.
* `IndexFileReader.Opens` — a reader of such a file none of whose calls has failed.  **Every call
  for an entry that is there succeeds and keeps the reader so** (`timeOf_lt`, `readOffset_lt`,
  `readPayload_lt`).
* `make_opens` — the constructor gives such a reader.
-/

namespace Tracebox

open Bytes

namespace LogFileHeader

/-- The number of complete entries; the size of a file is taken modulo `2 ^ 32`. -/
def entryCount (h : LogFileHeader) (I : Bytes) : ℕ :=
  (I.length % 2 ^ 32 - h.header_size_.toNat) / h.entrySize

/-- The time in an entry of an index file. -/
def entryTime (h : LogFileHeader) (I : Bytes) (i : ℕ) : UInt64 :=
  UInt64.ofNat (ofLE (slice I (h.header_size_.toNat + i * h.entrySize) 8))

/-- The position in an entry of an index file. -/
def entryOffset (h : LogFileHeader) (I : Bytes) (i : ℕ) : ℕ :=
  ofLE (slice I (h.header_size_.toNat + i * h.entrySize + 8) 4)

/-- The payload in an entry of an index file with fixed-size records. -/
def entryPayload (h : LogFileHeader) (I : Bytes) (i : ℕ) : Bytes :=
  slice I (h.header_size_.toNat + i * h.entrySize + 8) h.record_size_.toNat

lemma entrySize_ge (h : LogFileHeader) : 8 ≤ h.entrySize := by
  unfold entrySize sizeofFixedRecordIdx sizeofVariableRecordIdx
  split_ifs <;> omega

lemma entrySize_of_variable {h : LogFileHeader} (h0 : h.record_size_ = 0) : h.entrySize = 12 := by
  simp [entrySize, h0, sizeofVariableRecordIdx]

lemma entrySize_of_fixed {h : LogFileHeader} (h0 : h.record_size_ ≠ 0) :
    h.entrySize = sizeofFixedRecordIdx + h.record_size_.toNat := by
  simp [entrySize, h0]

/-- A complete entry lies inside the file. -/
lemma entry_le {h : LogFileHeader} {I : Bytes} {i : ℕ} (hi : i < h.entryCount I) :
    h.header_size_.toNat + i * h.entrySize + h.entrySize ≤ I.length := by
  have hpos := h.entrySize_ge
  have hmod := Nat.mod_le I.length (2 ^ 32)
  have hmul := Nat.mul_le_of_le_div _ _ _ (Nat.succ_le_of_lt hi)
  rw [Nat.succ_mul] at hmul
  omega

end LogFileHeader

/-- The beginning of a file is a header. -/
def HasHeader (content : Bytes) (h : LogFileHeader) : Prop :=
  ∃ hlen : (slice content 0 sizeofLogFileHeader).length = sizeofLogFileHeader,
    h = LogFileHeader.decode (slice content 0 sizeofLogFileHeader) hlen

/-- A file that begins with the bytes of a header. -/
lemma hasHeader_of_slice {content : Bytes} {h : LogFileHeader}
    (hh : slice content 0 sizeofLogFileHeader = h.encode) : HasHeader content h :=
  ⟨by rw [hh, h.length_encode], by simp only [hh, h.decode_encode]⟩

lemma hasHeader_mono {content : Bytes} {h : LogFileHeader} (hp : h.encode <+: content) :
    HasHeader content h := by
  refine hasHeader_of_slice ?_
  rw [← slice_of_isPrefix hp (by rw [h.length_encode, Nat.zero_add]), ← h.length_encode,
    slice_zero_length]

/-- The header a reader has is the beginning of the file. -/
lemma FileReader.make_of_some {v : View} {p : Path} {content : Bytes} {h : LogFileHeader}
    (hlook : v.look p = some (.file content)) (hh : (FileReader.make v p).header_ = some h) :
    HasHeader content h ∧ content.length % 2 ^ 32 ≠ 0 ∧
      FileReader.make v p = ⟨p, ⟨content, sizeofLogFileHeader, true⟩, some h,
        content.length % 2 ^ 32, none, v.overrun p⟩ := by
  have hc : FileReader.contentOf v p = content := by rw [FileReader.contentOf, hlook]
  simp only [FileReader.make, hc] at hh ⊢
  split_ifs at hh ⊢ with hzero hread
  by_cases hlen : sizeofLogFileHeader ≤ content.length
  · have heq : (⟨content, 0, true⟩ : IfStream).read sizeofLogFileHeader =
        (slice content 0 sizeofLogFileHeader, ⟨content, sizeofLogFileHeader, true⟩) := by
      simp [IfStream.read, hlen]
    simp only [heq, Option.some.injEq] at hh ⊢
    exact ⟨⟨length_slice (by omega), hh.symm⟩, hzero, by rw [hh]⟩
  · simp [IfStream.read, hlen] at hread

/-- A file that begins with a header gives it to its reader. -/
lemma FileReader.make_of_hasHeader {v : View} {p : Path} {content : Bytes} {h : LogFileHeader}
    (hlook : v.look p = some (.file content)) (hh : HasHeader content h)
    (hne : content.length % 2 ^ 32 ≠ 0) : (FileReader.make v p).header_ = some h := by
  obtain ⟨hlen, rfl⟩ := hh
  have hc : FileReader.contentOf v p = content := by rw [FileReader.contentOf, hlook]
  have hle : sizeofLogFileHeader ≤ content.length := by
    simp only [slice, List.length_take, List.length_drop] at hlen
    omega
  have hread : (⟨content, 0, true⟩ : IfStream).read sizeofLogFileHeader =
      (slice content 0 sizeofLogFileHeader, ⟨content, sizeofLogFileHeader, true⟩) := by
    simp [IfStream.read, hle]
  simp only [FileReader.make, hc, hne, if_false, hread, hlen, and_self, dite_true]

namespace IndexFileReader

variable {h : LogFileHeader} {I : Bytes}

/-- A reader of an index file, between two calls. -/
structure Opens (r : IndexFileReader) (h : LogFileHeader) (I : Bytes) : Prop where
  header : r.header_ = some h
  bytes : r.if_.bytes = I
  good : r.if_.good = true
  size : r.size_bytes_ = I.length % 2 ^ 32
  count : r.records_cnt_ = h.entryCount I

lemma Opens.eq {r : IndexFileReader} (hr : r.Opens h I) :
    ∃ path pos err overrun s e, r =
      ⟨⟨path, ⟨I, pos, true⟩, some h, I.length % 2 ^ 32, err, overrun⟩,
        h.entryCount I, s, e⟩ := by
  obtain ⟨⟨path, ⟨bytes, pos, good⟩, hdr, size, err, overrun⟩, cnt, s, e⟩ := r
  obtain ⟨hh, hb, hg, hs, hc⟩ := hr
  dsimp only at hh hb hg hs hc
  subst hh hb hg hs hc
  exact ⟨_, _, _, _, _, _, rfl⟩

/-- A window inside an entry can be read. -/
lemma read_entry {i k n : ℕ} (hi : i < h.entryCount I) (hn : k + n ≤ h.entrySize) :
    (⟨I, h.header_size_.toNat + i * h.entrySize + k, true⟩ : IfStream).read n =
      (slice I (h.header_size_.toNat + i * h.entrySize + k) n,
        ⟨I, h.header_size_.toNat + i * h.entrySize + k + n, true⟩) := by
  have hle := LogFileHeader.entry_le hi
  simp only [IfStream.read, if_true]
  rw [if_pos (by omega)]

/-- What a call keeps when it succeeds. -/
structure Goes (r r' : IndexFileReader) (h : LogFileHeader) (I : Bytes) : Prop where
  opens : r'.Opens h I
  no_error : r'.last_error_ = none
  path : r'.path_ = r.path_
  overrun : r'.overrun = r.overrun

lemma timeOf_lt {r : IndexFileReader} (hr : r.Opens h I) (htype : h.file_type_ = kIndexFile)
    {i : ℕ} (hi : i < h.entryCount I) :
    (r.timeOf i).1 = h.entryTime I i ∧ r.Goes (r.timeOf i).2 h I := by
  obtain ⟨path, pos, err, overrun, s, e, rfl⟩ := hr.eq
  have hread := read_entry hi (k := 0) (n := 8) (by have := h.entrySize_ge; omega)
  rw [Nat.add_zero] at hread
  have hge : ¬ h.entryCount I ≤ i := by omega
  have hseek : ∀ q, (⟨I, pos, true⟩ : IfStream).seekg q = ⟨I, q, true⟩ := fun _ => rfl
  simp only [timeOf, clearError, FileReader.clear_error, selectRecord, hge, htype, ne_eq,
    not_true_eq_false, or_self, if_false, hseek, hread]
  exact ⟨rfl, ⟨⟨rfl, rfl, rfl, rfl, rfl⟩, rfl, rfl, rfl⟩⟩

lemma timeOf_error {r : IndexFileReader} (hr : r.Opens h I) {i : ℕ}
    (hi : h.entryCount I ≤ i ∨ h.file_type_ ≠ kIndexFile) :
    (r.timeOf i).1 = 0 ∧ (r.timeOf i).2.Opens h I ∧ (r.timeOf i).2.overrun = r.overrun := by
  obtain ⟨path, pos, err, overrun, s, e, rfl⟩ := hr.eq
  simp only [timeOf, clearError, FileReader.clear_error, hi, if_true, withError,
    FileReader.log_error]
  exact ⟨trivial, ⟨rfl, rfl, rfl, rfl, rfl⟩, trivial⟩

lemma readOffset_lt {r : IndexFileReader} (hr : r.Opens h I) (h0 : h.record_size_ = 0) {i : ℕ}
    (hi : i < h.entryCount I) :
    (r.readOffset i).1 = h.entryOffset I i ∧ r.Goes (r.readOffset i).2 h I := by
  obtain ⟨path, pos, err, overrun, s, e, rfl⟩ := hr.eq
  have hsize := LogFileHeader.entrySize_of_variable h0
  have hread := read_entry hi (k := 0) (n := sizeofVariableRecordIdx)
    (by rw [hsize]; decide)
  rw [Nat.add_zero] at hread
  have hge : ¬ h.entryCount I ≤ i := by omega
  have hseek : ∀ q, (⟨I, pos, true⟩ : IfStream).seekg q = ⟨I, q, true⟩ := fun _ => rfl
  have hval : slice (slice I (h.header_size_.toNat + i * h.entrySize) sizeofVariableRecordIdx) 8 4 =
      slice I (h.header_size_.toNat + i * h.entrySize + 8) 4 := by
    simp only [slice, List.drop_take, List.drop_drop, List.take_take, sizeofVariableRecordIdx]
    norm_num
  simp only [readOffset, clearError, FileReader.clear_error, selectRecord, h0, hge, ne_eq,
    not_true_eq_false, or_self, if_false, hseek, hread, hval]
  exact ⟨rfl, ⟨⟨rfl, rfl, rfl, rfl, rfl⟩, rfl, rfl, rfl⟩⟩

lemma readPayload_lt {r : IndexFileReader} (hr : r.Opens h I) (h0 : h.record_size_ ≠ 0) {i : ℕ}
    (hi : i < h.entryCount I) :
    (r.readPayload i).1 = some (h.entryPayload I i) ∧ r.Goes (r.readPayload i).2 h I := by
  obtain ⟨path, pos, err, overrun, s, e, rfl⟩ := hr.eq
  have hsize := LogFileHeader.entrySize_of_fixed h0
  have htime := read_entry hi (k := 0) (n := sizeofFixedRecordIdx) (by omega)
  have hdata := read_entry hi (k := sizeofFixedRecordIdx) (n := h.record_size_.toNat) (by omega)
  rw [Nat.add_zero] at htime
  have hge : ¬ h.entryCount I ≤ i := by omega
  have hseek : ∀ q, (⟨I, pos, true⟩ : IfStream).seekg q = ⟨I, q, true⟩ := fun _ => rfl
  simp only [readPayload, clearError, FileReader.clear_error, selectRecord, h0, hge,
    not_true_eq_false, or_self, if_false, hseek, htime, hdata]
  exact ⟨rfl, ⟨⟨rfl, rfl, rfl, rfl, rfl⟩, rfl, rfl, rfl⟩⟩

lemma Opens.fixedSize {r : IndexFileReader} (hr : r.Opens h I) :
    r.fixedSize = decide (h.record_size_ ≠ 0) := by
  rw [IndexFileReader.fixedSize, hr.header]
  simp [UInt32.pos_iff_ne_zero]

lemma timeOf_opens {r : IndexFileReader} (hr : r.Opens h I) (i : ℕ) :
    (r.timeOf i).2.Opens h I ∧ (r.timeOf i).2.overrun = r.overrun := by
  by_cases hi : h.entryCount I ≤ i ∨ h.file_type_ ≠ kIndexFile
  · exact (timeOf_error hr hi).2
  · obtain ⟨hlt, htype⟩ := not_or.mp hi
    have := (timeOf_lt hr (not_not.mp htype) (not_le.mp hlt)).2
    exact ⟨this.opens, this.overrun⟩

/-- **The constructor on a file with a header.**  The cached timestamps are those of the first and
the last entry. -/
lemma make_opens {v : View} {path : Path} (hlook : v.look path = some (.file I))
    (hh : (FileReader.make v path).header_ = some h)
    (hsize : h.header_size_.toNat ≤ I.length % 2 ^ 32) :
    (make v path).Opens h I ∧ (make v path).overrun = v.overrun path ∧
      (h.file_type_ = kIndexFile → 0 < h.entryCount I → (make v path).start_ns_ =
        h.entryTime I 0 ∧ (make v path).end_ns_ = h.entryTime I (h.entryCount I - 1)) := by
  obtain ⟨-, hne, hmake⟩ := FileReader.make_of_some hlook hh
  -- the reader before its two look-ups, and the reader between them
  obtain ⟨r₀, hr₀⟩ : ∃ r₀ : IndexFileReader, r₀ =
    ⟨⟨path, ⟨I, sizeofLogFileHeader, true⟩, some h, I.length % 2 ^ 32, none,
      v.overrun path⟩, h.entryCount I, 0, 0⟩ := ⟨_, rfl⟩
  have h₀ : r₀.Opens h I := by subst hr₀; exact ⟨rfl, rfl, rfl, rfl, rfl⟩
  have ho : r₀.overrun = v.overrun path := by rw [hr₀]
  obtain ⟨h₁, ho₁⟩ := timeOf_opens h₀ 0
  obtain ⟨k, hk⟩ : ∃ k, k = (h.entryCount I + 2 ^ 32 - 1) % 2 ^ 32 := ⟨_, rfl⟩
  obtain ⟨h₂, ho₂⟩ := timeOf_opens h₁ k
  have heq : make v path = { ((r₀.timeOf 0).2.timeOf k).2 with
      start_ns_ := (r₀.timeOf 0).1, end_ns_ := ((r₀.timeOf 0).2.timeOf k).1 } := by
    simp only [make, hmake]
    rw [if_pos ⟨hne, hsize⟩, ← LogFileHeader.entryCount, ← hk, ← hr₀]
  clear hmake
  rw [heq]
  refine ⟨⟨h₂.header, h₂.bytes, h₂.good, h₂.size, h₂.count⟩,
    (ho₂.trans ho₁).trans ho, fun htype hpos => ?_⟩
  have hlt : h.entryCount I < 2 ^ 32 := lt_of_le_of_lt
    ((Nat.div_le_self _ _).trans (Nat.sub_le _ _))
    (Nat.mod_lt _ (by norm_num))
  have hlast : k = h.entryCount I - 1 := by omega
  have t₀ := (timeOf_lt h₀ htype hpos).1
  have t₁ := (timeOf_lt h₁ htype (i := h.entryCount I - 1) (by omega)).1
  simp only [hlast]
  exact ⟨t₀, t₁⟩

/-- A file whose header is larger than the file has no entries. -/
lemma make_of_large {v : View} {path : Path} (hh : (FileReader.make v path).header_ = some h)
    (hsize : (FileReader.make v path).size_bytes_ < h.header_size_.toNat) :
    make v path = { toFileReader := FileReader.make v path } := by
  simp only [make, hh, not_le.mpr hsize, and_false, if_false]

/-- **The number of records a reader counts**, in any file with a header. -/
lemma records_cnt_make {v : View} {path : Path} (hlook : v.look path = some (.file I))
    (hh : HasHeader I h) :
    (make v path).records_cnt_ = h.entryCount I := by
  have hc : FileReader.contentOf v path = I := by rw [FileReader.contentOf, hlook]
  by_cases hzero : I.length % 2 ^ 32 = 0
  · have hmake : FileReader.make v path =
        { path_ := path, if_ := { bytes := [] }, size_bytes_ := 0 } := by
      simp only [FileReader.make, hc, hzero, if_true]
    have hcount : h.entryCount I = 0 := by
      rw [LogFileHeader.entryCount, hzero, Nat.zero_sub, Nat.zero_div]
    rw [hcount]
    simp only [make, hmake]
  · have hhead := FileReader.make_of_hasHeader hlook hh hzero
    by_cases hsize : h.header_size_.toNat ≤ I.length % 2 ^ 32
    · exact (make_opens hlook hhead hsize).1.count
    · obtain ⟨-, -, hmake⟩ := FileReader.make_of_some hlook hhead
      have hcount : h.entryCount I = 0 := by
        rw [LogFileHeader.entryCount, Nat.sub_eq_zero_of_le (by omega), Nat.zero_div]
      have hlarge : (FileReader.make v path).size_bytes_ < h.header_size_.toNat := by
        rw [hmake]
        exact not_le.mp hsize
      rw [make_of_large hhead hlarge, hcount]

/-- The bytes of an index file: a whole header, which has the size it says and the type of an
index. -/
def IsIndex (h : LogFileHeader) (content : Bytes) : Prop :=
  HasHeader content h ∧ sizeofLogFileHeader ≤ h.header_size_.toNat ∧
    h.header_size_.toNat ≤ content.length % 2 ^ 32 ∧ h.file_type_ = kIndexFile

/-- **`validIndex` accepts index files.** -/
lemma validIndex_make_iff {v : View} {path : Path} (hlook : v.look path = some (.file I)) :
    (make v path).validIndex = true ↔ ∃ h, IsIndex h I := by
  constructor
  · intro hvalid
    cases hh : (FileReader.make v path).header_ with
    | none => simp [validIndex, make, hh] at hvalid
    | some h =>
        obtain ⟨hhas, -, hmake⟩ := FileReader.make_of_some hlook hh
        have hlen : (FileReader.make v path).size_bytes_ = I.length % 2 ^ 32 := by rw [hmake]
        by_cases hsize : h.header_size_.toNat ≤ I.length % 2 ^ 32
        · obtain ⟨hopens, -⟩ := make_opens hlook hh hsize
          simp only [validIndex, hopens.header, hopens.size, decide_eq_true_eq] at hvalid
          exact ⟨h, hhas, hvalid.2.1, hsize, hvalid.2.2⟩
        · rw [make_of_large hh (by omega)] at hvalid
          simp only [validIndex, hh, hlen, decide_eq_true_eq] at hvalid
          exact absurd hvalid.1 hsize
  · rintro ⟨h, hhas, h49, hsize, htype⟩
    have hne : I.length % 2 ^ 32 ≠ 0 := by
      unfold sizeofLogFileHeader at h49
      omega
    obtain ⟨hopens, -⟩ := make_opens hlook (FileReader.make_of_hasHeader hlook hhas hne) hsize
    simp only [validIndex, hopens.header, hopens.size, decide_eq_true_eq]
    exact ⟨hsize, h49, htype⟩

end IndexFileReader

end Tracebox
