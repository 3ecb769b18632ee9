import Tracebox.Host.World

/-!
# `StreamWriter`

One log stream: an index file, and for variable-size records a data file beside it.  The model
follows `stream_writer.cpp` statement by statement; where the source chains calls at the file
boundary with `||` and leaves on the first failure, `tryAll` does the same.

The writer's memory survives a failed call, so every operation returns the writer it leaves
behind together with the world, also when it fails or throws.
-/

namespace Tracebox

open Bytes

/-- The extension of an index file. -/
def dotIdx : Bytes := ascii ".idx"
/-- The extension of a data file. -/
def dotData : Bytes := ascii ".data"

/-- Calls made one after the other until one fails. -/
def tryAll : List (World → Bool × World) → World → Bool × World
  | [], w => (true, w)
  | call :: calls, w => if (call w).1 then tryAll calls (call w).2 else (false, (call w).2)

/-- `StreamWriter`: the files of a stream and where it is in them. -/
structure StreamWriter where
  folder_ : Path
  name_ : Bytes := []
  /-- `0` when the stream holds variable-size records. -/
  record_size_ : UInt32 := 0
  /-- position in the data file -/
  offset_ : UInt32 := 0
  index_ : Option FileIo := none
  data_ : Option FileIo := none
  last_flush_ : ℤ := 0
  /-- whether a fault injector is installed; when it throws is up to the host's script -/
  fault_injector_ : Bool := false
  deriving DecidableEq

namespace StreamWriter

variable (host : Host)

/-- `kFlushIntervalSeconds`, in nanoseconds. -/
def kFlushInterval : ℤ := 1000000000

/-- `h && h->isOpen()`, with the handle. -/
def live (h : Option FileIo) : Option FileIo := h.filter fun f => f.is_open

/-! ## File names -/

/-- `std::setw(2) << std::setfill('0')` of a field of the broken-down time. -/
def pad2 (n : ℕ) : Bytes := [UInt8.ofNat (48 + n / 10), UInt8.ofNat (48 + n % 10)]

/-- Time of day, stream name and record size. -/
def fileName (s : StreamWriter) (time_ns : UInt64) : Bytes :=
  let now := host.cal.localtime time_ns
  pad2 now.tm_hour ++ pad2 now.tm_min ++ pad2 now.tm_sec ++
    95 :: s.name_ ++ 95 :: toDec s.record_size_.toNat

/-- The loop condition of `reopenFile`: one of the two files is already there.  No answer when
a call throws. -/
def nameTaken (t : Tree) (dir : Path) (name : Bytes) : Option Bool :=
  match t.exists_ dir (name ++ dotIdx) with
  | none => none
  | some true => some true
  | some false => t.exists_ dir (name ++ dotData)

/-- What the search for a free name comes to. -/
inductive NameSearch where
  | found (name : Bytes)
  | thrown
  | hangs

/-- The loop of `reopenFile` over the suffixes `_1`, `_2`, …; `suffix` is a `uint32_t`. -/
def searchName (t : Tree) (dir : Path) (base : Bytes) : ℕ → ℕ → Bytes → NameSearch
  | 0, _, _ => .hangs
  | fuel + 1, suffix, name =>
      match nameTaken t dir name with
      | none => .thrown
      | some false => .found name
      | some true =>
          searchName t dir base fuel (suffix + 1) (base ++ 95 :: toDec (suffix % 2 ^ 32))

/-- The name the loop settles on.  A directory has room for as many taken names as the tree has
entries; a loop that goes on longer looks at the same name again and never ends. -/
def freshName (s : StreamWriter) (time_ns : UInt64) (t : Tree) : NameSearch :=
  searchName t s.folder_ (s.fileName host time_ns) (t.entries.length + 1) 1
    (s.fileName host time_ns)

/-! ## Opening and closing -/

/-- The header of a file of this stream. -/
def header (s : StreamWriter) (time_ns : UInt64) (type : UInt8) : LogFileHeader where
  header_size_ := UInt16.ofNat sizeofLogFileHeader
  timestamp_ns_ := time_ns
  record_size_ := s.record_size_
  major_version_ := kDlFormatMajor
  minor_version_ := kDlFormatMinor
  file_type_ := type
  name_ := nameField s.name_
  name_length := length_nameField s.name_

/-- `writeHeader`: the header goes to the disk at once. -/
def writeHeader (s : StreamWriter) (stream : FileIo) (time_ns : UInt64) (type : UInt8)
    (w : World) : ℤ × World :=
  if stream.is_open then
    let r := tryAll [stream.write host (s.header time_ns type).encode, stream.flush host] w
    if r.1 then ((sizeofLogFileHeader : ℤ), r.2) else (- EIO, r.2)
  else (-EINVAL, w)

/-- The end of a successful `reopenFile`. -/
def opened (s : StreamWriter) (result : ℤ) (w : World) : Outcome × StreamWriter × World :=
  (.ret result, { s with last_flush_ := (w.now host).1 }, (w.now host).2)

/-- `reopenFile` from the creation of the data file on; the index file is open and has its
header. -/
def reopenData (s : StreamWriter) (file_name : Bytes) (index : FileIo) (time_ns : UInt64)
    (result : ℤ) (w : World) : Outcome × StreamWriter × World :=
  let o := FileIo.open_ host s.folder_ (file_name ++ dotData) w
  let r := if o.1.is_open then s.writeHeader host o.1 time_ns kDataFile o.2 else (-EINVAL, o.2)
  let s := { s with data_ := some o.1, offset_ := UInt32.ofNat sizeofLogFileHeader }
  if r.1 < 0 then (.ret r.1, { s with index_ := some index.close }, r.2)
  else s.opened host (result + r.1) r.2

/-- `reopenFile` once the file name is known. -/
def reopenAs (s : StreamWriter) (file_name : Bytes) (time_ns : UInt64) (w : World) :
    Outcome × StreamWriter × World :=
  let o := FileIo.open_ host s.folder_ (file_name ++ dotIdx) w
  let s := { s with index_ := some o.1 }
  if ¬ o.1.is_open then (.ret (-EINVAL), s, o.2)
  else
    let r := s.writeHeader host o.1 time_ns kIndexFile o.2
    if r.1 ≤ 0 then (.ret r.1, { s with index_ := some o.1.close }, r.2)
    else if s.record_size_ = 0 then s.reopenData host file_name o.1 time_ns r.1 r.2
    else s.opened host r.1 r.2

/-- `reopenFile`: new files under a name that no file has. -/
def reopenFile (s : StreamWriter) (time_ns : UInt64) (w : World) :
    Outcome × StreamWriter × World :=
  let s := { s with offset_ := 0 }
  match s.freshName host time_ns w.tree with
  | .thrown => (.thrown, s, w)
  | .hangs => (.hangs, s, w)
  | .found file_name => s.reopenAs host file_name time_ns w

/-- `openFile`: the channel and the record size of the first request. -/
def openFile (s : StreamWriter) (request : LogRequest) (w : World) :
    Outcome × StreamWriter × World :=
  { s with name_ := request.channel, record_size_ := request.size }.reopenFile host
    request.time_ns w

/-- Flushes and closes a handle that is open; the result of the flush is not looked at. -/
def closeHandle (h : Option FileIo) (w : World) : Option FileIo × World :=
  match live h with
  | some f => (some f.close, (f.flush host w).2)
  | none => (h, w)

/-- `closeFile`: the index file first. -/
def closeFile (s : StreamWriter) (w : World) : StreamWriter × World :=
  let i := closeHandle host s.index_ w
  let d := closeHandle host s.data_ i.2
  ({ s with index_ := i.1, data_ := d.1 }, d.2)

/-! ## Writing -/

/-- The flush at the end of a group of writes, when one is due. -/
def flushIf (flush : Bool) (f : FileIo) : List (World → Bool × World) :=
  if flush then [f.flush host] else []

/-- The call of the fault injector; no world when it throws. -/
def inject (s : StreamWriter) (w : World) : Option World :=
  if s.fault_injector_ then
    if host.outcome w.calls = .throws then none else some w.called
  else some w

/-- The bytes a variable-size record adds to both files together. -/
def totalLength (data : Bytes) : ℕ := 24 + (UInt32.ofNat data.length).toNat

/-- A variable-size record: first the data file, then the index entry that makes it reachable.
`result` counts what was written before. -/
def commitRecord (s : StreamWriter) (flush : Bool) (time_ns : UInt64) (data : Bytes)
    (result : ℤ) (w : World) : Outcome × StreamWriter × World :=
  let size := UInt32.ofNat data.length
  let data_file := s.data_.getD .unopened
  let index_file := s.index_.getD .unopened
  let d := tryAll ([data_file.write host (toLE 8 time_ns.toNat),
    data_file.write host (toLE 4 size.toNat),
    data_file.write host (data.take size.toNat)] ++ flushIf host flush data_file) w
  if ¬ d.1 then (.ret (- EIO), s, d.2)
  else match s.inject host d.2 with
    | none => (.thrown, s, d.2.called)
    | some w =>
        let i := tryAll ([index_file.write host (toLE 8 time_ns.toNat),
          index_file.write host (toLE 4 s.offset_.toNat)] ++ flushIf host flush index_file) w
        if ¬ i.1 then (.ret (- EIO), s, i.2)
        else (.ret (toInt (result + totalLength data)),
          { s with offset_ := s.offset_ + (UInt32.ofNat 12 + size) }, i.2)

/-- A fixed-size record goes to the index file alone. -/
def writeFixed (s : StreamWriter) (index_file : FileIo) (flush : Bool) (time_ns : UInt64)
    (data : Bytes) (w : World) : Outcome × StreamWriter × World :=
  if data.length = s.record_size_.toNat then
    let r := tryAll ([index_file.write host (toLE 8 time_ns.toNat), index_file.write host data] ++
      flushIf host flush index_file) w
    if r.1 then (.ret (toInt (s.record_size_.toNat + sizeofFixedRecordIdx : ℕ)), s, r.2)
    else (.ret (- EIO), s, r.2)
  else (.ret (-EINVAL), s, w)

/-- The offset of the next record would not fit 32 bits. -/
def rollover (s : StreamWriter) (data : Bytes) : Bool :=
  decide (UINT32_MAX < totalLength data + s.offset_.toNat)

/-- A variable-size record, into a new pair of files when the offset would overflow. -/
def writeVariable (s : StreamWriter) (flush : Bool) (time_ns : UInt64) (data : Bytes)
    (w : World) : Outcome × StreamWriter × World :=
  match live s.data_ with
  | none => (.ret (-EINVAL), s, w)
  | some _ =>
      if s.rollover data then
        let c := s.closeFile host w
        match c.1.reopenFile host time_ns c.2 with
        | (.ret ret, s, w) =>
            if ret ≤ 0 then (.ret ret, s, w) else s.commitRecord host flush time_ns data ret w
        | r => r
      else s.commitRecord host flush time_ns data 0 w

/-- More than the flush interval has passed since the last flush. -/
def flushDue (s : StreamWriter) (w : World) : Bool :=
  decide (kFlushInterval < (w.now host).1 - s.last_flush_)

/-- `StreamWriter::write`: nothing without an open index file. -/
def write (s : StreamWriter) (time_ns : UInt64) (data : Bytes) (w : World) :
    Outcome × StreamWriter × World :=
  match live s.index_ with
  | none => (.ret (-EINVAL), s, w)
  | some index_file =>
      let flush := s.flushDue host w
      if s.record_size_ ≠ 0 then s.writeFixed host index_file flush time_ns data (w.now host).2
      else s.writeVariable host flush time_ns data (w.now host).2

end StreamWriter

end Tracebox
