import Tracebox.Std

/-!
# Records, headers and days

The on-disk structures of `data_types.h` with their packed encodings, the messages of
`logger.proto` that the storage side uses, and the conversion of a timestamp to a local day.

The structures are packed and the host is little-endian, so a header is the concatenation of
the little-endian words of its fields.  `LogFileHeader.decode_encode` is the round trip every
reader theorem starts from.
-/

namespace Tracebox

open Bytes

/-! ## File header -/

/-- The type of an index file. -/
def kIndexFile : UInt8 := 1
/-- The type of a data file. -/
def kDataFile : UInt8 := 2

/-- The major version of the format. -/
def kDlFormatMajor : UInt8 := 1
/-- The minor version of the format. -/
def kDlFormatMinor : UInt8 := 0

/-- The header both files of a stream begin with.  `name_` is a fixed field of 32 bytes. -/
structure LogFileHeader where
  header_size_ : UInt16
  timestamp_ns_ : UInt64
  record_size_ : UInt32
  major_version_ : UInt8
  minor_version_ : UInt8
  file_type_ : UInt8
  name_ : Bytes
  name_length : name_.length = 32
  deriving DecidableEq

/-- `sizeof(LogFileHeader)` -/
def sizeofLogFileHeader : ℕ := 49
/-- `sizeof(FixedRecordIdx)` -/
def sizeofFixedRecordIdx : ℕ := 8
/-- `sizeof(VariableRecordIdx)` -/
def sizeofVariableRecordIdx : ℕ := 12
/-- `sizeof(VariableRecordDataHeader)` -/
def sizeofVariableRecordDataHeader : ℕ := 12

/-- The bytes of a header in memory and in the file. -/
def LogFileHeader.encode (h : LogFileHeader) : Bytes :=
  toLE 2 h.header_size_.toNat ++ (toLE 8 h.timestamp_ns_.toNat ++ (toLE 4 h.record_size_.toNat ++
    ([h.major_version_, h.minor_version_, h.file_type_] ++ h.name_)))

/-- The header whose bytes are the given ones. -/
def LogFileHeader.decode (bs : Bytes) (h : bs.length = sizeofLogFileHeader) : LogFileHeader where
  header_size_ := UInt16.ofNat (ofLE (slice bs 0 2))
  timestamp_ns_ := UInt64.ofNat (ofLE (slice bs 2 8))
  record_size_ := UInt32.ofNat (ofLE (slice bs 10 4))
  major_version_ := UInt8.ofNat (ofLE (slice bs 14 1))
  minor_version_ := UInt8.ofNat (ofLE (slice bs 15 1))
  file_type_ := UInt8.ofNat (ofLE (slice bs 16 1))
  name_ := slice bs 17 32
  name_length := length_slice (by rw [h]; decide)

@[simp] lemma LogFileHeader.length_encode (h : LogFileHeader) :
    h.encode.length = sizeofLogFileHeader := by
  simp [encode, h.name_length, sizeofLogFileHeader]

lemma LogFileHeader.decode_encode (h : LogFileHeader) :
    decode h.encode h.length_encode = h := by
  obtain ⟨hs, ts, rs, ma, mi, ft, nm, hn⟩ := h
  have hnm : List.take 32 nm = nm := List.take_of_length_le (by omega)
  simp [decode, encode, slice, List.drop_append, hnm, ofLE]

/-- The bytes `memcpy` and `memset` leave in the name field for a stream name. -/
def nameField (name : Bytes) : Bytes := name.take 32 ++ List.replicate (32 - name.length) 0

lemma length_nameField (name : Bytes) : (nameField name).length = 32 := by
  simp only [nameField, List.length_append, List.length_take, List.length_replicate]
  omega

/-- A name of at most 31 bytes keeps a terminator inside the field, whatever lies behind it. -/
lemma cString_nameField {name : Bytes} (hl : name.length ≤ 31) (h0 : (0 : UInt8) ∉ name)
    (rest : Bytes) : cString (nameField name ++ rest) = name := by
  obtain ⟨k, hk⟩ : ∃ k, 32 - name.length = k + 1 := ⟨31 - name.length, by omega⟩
  rw [nameField, hk, List.replicate_succ, List.take_of_length_le (by omega), List.append_assoc,
    List.cons_append]
  exact cString_append_zero h0 _

/-! ## Messages -/

/-- `LogRequest` of `logger.proto`: one record on its way to the storage. -/
structure LogRequest where
  channel : Bytes
  /-- Fixed record size, `0` for a variable-size channel. -/
  size : UInt32
  data : Bytes
  time_ns : UInt64
  deriving DecidableEq, Repr

/-- `DataPiece` of `logger.proto`: one record on its way to a reader. -/
structure DataPiece where
  time_ns : UInt64
  data : Bytes
  stream_idx : UInt32 := 0
  deriving DecidableEq, Repr

/-- `maxRecordSize(data().size())`: the byte count is first converted to `int`, and the sum is a
`size_t`. -/
def maxRecordSize (size : ℕ) : ℕ :=
  toSize (((2 * sizeofLogFileHeader + sizeofVariableRecordIdx +
    sizeofVariableRecordDataHeader : ℕ) : ℤ) + toInt size)

lemma maxRecordSize_of_lt {size : ℕ} (h : size < 2 ^ 31) : maxRecordSize size = 122 + size := by
  have hsum : (((2 * sizeofLogFileHeader + sizeofVariableRecordIdx +
      sizeofVariableRecordDataHeader : ℕ) : ℤ) + (size : ℤ)) =
        ((122 + size : ℕ) : ℤ) := by
    simp [sizeofLogFileHeader, sizeofVariableRecordIdx, sizeofVariableRecordDataHeader]
  rw [maxRecordSize, toInt_of_lt (by omega), hsum, toSize_natCast (by omega)]

/-! ## Local days -/

/-- Broken-down local time.  The field ranges are those of the C standard; `tm_year` stays
below year 10000 because a 64-bit count of nanoseconds ends in the year 2554. -/
structure Tm where
  tm_year : ℕ
  tm_mon : ℕ
  tm_mday : ℕ
  tm_hour : ℕ
  tm_min : ℕ
  tm_sec : ℕ
  year_le : tm_year ≤ 8099
  mon_le : tm_mon ≤ 11
  mday_pos : 1 ≤ tm_mday
  mday_le : tm_mday ≤ 31
  hour_le : tm_hour ≤ 23
  min_le : tm_min ≤ 59
  sec_le : tm_sec ≤ 60

/-- The host's clock arithmetic.  `localtime` stands for `time_t t(time_ns / 1E9)` followed by
`localtime(&t)`: it depends on the time zone of the process. -/
structure Calendar where
  localtime : UInt64 → Tm

variable (cal : Calendar)

/-- The day of a timestamp as `YYYYMMDD`. -/
def Calendar.Time2YYYYMMDD (time_ns : UInt64) : ℕ :=
  let now := cal.localtime time_ns
  (now.tm_year + 1900) * 10000 + (now.tm_mon + 1) * 100 + now.tm_mday

/-- A day is never `0`, the value that marks a folder without a day, and stays below the bound
that marks the absence of a day directory. -/
lemma Calendar.day_bounds (t : UInt64) :
    0 < cal.Time2YYYYMMDD t ∧ cal.Time2YYYYMMDD t < 99999999 := by
  have h := cal.localtime t
  have h1 := (cal.localtime t).year_le
  have h2 := (cal.localtime t).mon_le
  have h3 := (cal.localtime t).mday_pos
  have h4 := (cal.localtime t).mday_le
  simp only [Time2YYYYMMDD]
  omega

end Tracebox
