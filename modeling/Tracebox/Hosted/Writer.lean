import Tracebox.Host.System
import Tracebox.Writer.StreamWriter
import Tracebox.Writer.Storage

/-!
# The writers over any system

`StreamWriter` and `Folder` once more, statement by statement, with every call to the system taken
from a `System`.  Here a call of `std::filesystem` can throw wherever it can throw in the source,
and the search for a free file name runs until its `uint32_t` suffix comes round again.

What a writer remembers is the same on every host, so the records of `Tracebox.Writer` are used as
they are.
-/

namespace Tracebox

open Bytes

namespace System

variable {σ : Type} (sys : System σ)

/-- Calls made one after the other until one fails. -/
def tryAll : List (σ → Bool × σ) → σ → Bool × σ
  | [], x => (true, x)
  | call :: calls, x => if (call x).1 then tryAll calls (call x).2 else (false, (call x).2)

/-! ## A stream -/

namespace StreamWriter

open Tracebox.StreamWriter (NameSearch)

/-- The loop condition of `reopenFile`: one of the two files is already there.  No answer when a
call throws. -/
def nameTaken (dir : Path) (name : Bytes) (x : σ) : Option Bool :=
  match sys.exists_ dir (name ++ dotIdx) x with
  | none => none
  | some true => some true
  | some false => sys.exists_ dir (name ++ dotData) x

/-- The loop of `reopenFile` over the suffixes `_1`, `_2`, …; `suffix` is a `uint32_t`. -/
def searchName (dir : Path) (base : Bytes) (x : σ) : ℕ → ℕ → Bytes → NameSearch
  | 0, _, _ => .hangs
  | fuel + 1, suffix, name =>
      match nameTaken sys dir name x with
      | none => .thrown
      | some false => .found name
      | some true =>
          searchName dir base x fuel (suffix + 1) (base ++ 95 :: toDec (suffix % 2 ^ 32))

/-- The name the loop settles on.  After `2 ^ 32` suffixes the names come again, and a loop that has
found them all taken never ends. -/
def freshName (s : StreamWriter) (time_ns : UInt64) (x : σ) : NameSearch :=
  searchName sys s.folder_ (s.fileName sys.host time_ns) x (2 ^ 32 + 1) 1
    (s.fileName sys.host time_ns)

/-- `StreamWriter::writeHeader` -/
def writeHeader (s : StreamWriter) (stream : FileIo) (time_ns : UInt64) (type : UInt8) (x : σ) :
    ℤ × σ :=
  if stream.is_open then
    let r := tryAll [sys.write stream (s.header time_ns type).encode, sys.flush stream] x
    if r.1 then ((sizeofLogFileHeader : ℤ), r.2) else (- EIO, r.2)
  else (-EINVAL, x)

/-- The end of a successful `reopenFile`. -/
def opened (s : StreamWriter) (result : ℤ) (x : σ) : Outcome × StreamWriter × σ :=
  (.ret result, { s with last_flush_ := (sys.now x).1 }, (sys.now x).2)

/-- `reopenFile` from the creation of the data file on. -/
def reopenData (s : StreamWriter) (file_name : Bytes) (index : FileIo) (time_ns : UInt64)
    (result : ℤ) (x : σ) : Outcome × StreamWriter × σ :=
  let o := sys.open_ s.folder_ (file_name ++ dotData) x
  let r := if o.1.is_open then writeHeader sys s o.1 time_ns kDataFile o.2 else (-EINVAL, o.2)
  let s := { s with data_ := some o.1, offset_ := UInt32.ofNat sizeofLogFileHeader }
  if r.1 < 0 then (.ret r.1, { s with index_ := some index.close }, r.2)
  else opened sys s (result + r.1) r.2

/-- `reopenFile` once the file name is known. -/
def reopenAs (s : StreamWriter) (file_name : Bytes) (time_ns : UInt64) (x : σ) :
    Outcome × StreamWriter × σ :=
  let o := sys.open_ s.folder_ (file_name ++ dotIdx) x
  let s := { s with index_ := some o.1 }
  if ¬ o.1.is_open then (.ret (-EINVAL), s, o.2)
  else
    let r := writeHeader sys s o.1 time_ns kIndexFile o.2
    if r.1 ≤ 0 then (.ret r.1, { s with index_ := some o.1.close }, r.2)
    else if s.record_size_ = 0 then reopenData sys s file_name o.1 time_ns r.1 r.2
    else opened sys s r.1 r.2

/-- `StreamWriter::reopenFile` -/
def reopenFile (s : StreamWriter) (time_ns : UInt64) (x : σ) : Outcome × StreamWriter × σ :=
  let s := { s with offset_ := 0 }
  match freshName sys s time_ns x with
  | .thrown => (.thrown, s, x)
  | .hangs => (.hangs, s, x)
  | .found file_name => reopenAs sys s file_name time_ns x

/-- `StreamWriter::openFile` -/
def openFile (s : StreamWriter) (request : LogRequest) (x : σ) : Outcome × StreamWriter × σ :=
  reopenFile sys { s with name_ := request.channel, record_size_ := request.size }
    request.time_ns x

/-- Flushes and closes a handle that is open; the result of the flush is not looked at. -/
def closeHandle (h : Option FileIo) (x : σ) : Option FileIo × σ :=
  match StreamWriter.live h with
  | some f => (some f.close, (sys.flush f x).2)
  | none => (h, x)

/-- `StreamWriter::closeFile` -/
def closeFile (s : StreamWriter) (x : σ) : StreamWriter × σ :=
  let i := closeHandle sys s.index_ x
  let d := closeHandle sys s.data_ i.2
  ({ s with index_ := i.1, data_ := d.1 }, d.2)

/-- The flush at the end of a group of writes, when one is due. -/
def flushIf (flush : Bool) (f : FileIo) : List (σ → Bool × σ) :=
  if flush then [sys.flush f] else []

/-- The call of the fault injector: whether it returns. -/
def inject (s : StreamWriter) (x : σ) : Bool × σ :=
  if s.fault_injector_ then sys.inject x else (true, x)

/-- A variable-size record: first the data file, then the index entry that makes it reachable.
`result` counts what was written before. -/
def commitRecord (s : StreamWriter) (flush : Bool) (time_ns : UInt64) (data : Bytes)
    (result : ℤ) (x : σ) : Outcome × StreamWriter × σ :=
  let size := UInt32.ofNat data.length
  let data_file := s.data_.getD .unopened
  let index_file := s.index_.getD .unopened
  let d := tryAll ([sys.write data_file (toLE 8 time_ns.toNat),
    sys.write data_file (toLE 4 size.toNat),
    sys.write data_file (data.take size.toNat)] ++ flushIf sys flush data_file) x
  if ¬ d.1 then (.ret (- EIO), s, d.2)
  else
    let j := inject sys s d.2
    if ¬ j.1 then (.thrown, s, j.2)
    else
      let i := tryAll ([sys.write index_file (toLE 8 time_ns.toNat),
        sys.write index_file (toLE 4 s.offset_.toNat)] ++ flushIf sys flush index_file) j.2
      if ¬ i.1 then (.ret (- EIO), s, i.2)
      else (.ret (toInt (result + StreamWriter.totalLength data)),
        { s with offset_ := s.offset_ + (UInt32.ofNat 12 + size) }, i.2)

/-- A fixed-size record goes to the index file alone. -/
def writeFixed (s : StreamWriter) (index_file : FileIo) (flush : Bool) (time_ns : UInt64)
    (data : Bytes) (x : σ) : Outcome × StreamWriter × σ :=
  if data.length = s.record_size_.toNat then
    let r := tryAll ([sys.write index_file (toLE 8 time_ns.toNat), sys.write index_file data] ++
      flushIf sys flush index_file) x
    if r.1 then (.ret (toInt (s.record_size_.toNat + sizeofFixedRecordIdx : ℕ)), s, r.2)
    else (.ret (- EIO), s, r.2)
  else (.ret (-EINVAL), s, x)

/-- A variable-size record, into a new pair of files when the offset would overflow. -/
def writeVariable (s : StreamWriter) (flush : Bool) (time_ns : UInt64) (data : Bytes) (x : σ) :
    Outcome × StreamWriter × σ :=
  match StreamWriter.live s.data_ with
  | none => (.ret (-EINVAL), s, x)
  | some _ =>
      if s.rollover data then
        let c := closeFile sys s x
        match reopenFile sys c.1 time_ns c.2 with
        | (.ret ret, s, x) =>
            if ret ≤ 0 then (.ret ret, s, x) else commitRecord sys s flush time_ns data ret x
        | r => r
      else commitRecord sys s flush time_ns data 0 x

/-- More than the flush interval has passed since the last flush. -/
def flushDue (s : StreamWriter) (x : σ) : Bool :=
  decide (StreamWriter.kFlushInterval < (sys.now x).1 - s.last_flush_)

/-- `StreamWriter::write` -/
def write (s : StreamWriter) (time_ns : UInt64) (data : Bytes) (x : σ) :
    Outcome × StreamWriter × σ :=
  match StreamWriter.live s.index_ with
  | none => (.ret (-EINVAL), s, x)
  | some index_file =>
      let flush := flushDue sys s x
      if s.record_size_ ≠ 0 then writeFixed sys s index_file flush time_ns data (sys.now x).2
      else writeVariable sys s flush time_ns data (sys.now x).2

end StreamWriter

/-! ## A folder -/

namespace Folder

/-- `Folder::create`: the day directory is created on the first write. -/
def create (f : Folder) (time_ns : UInt64) (x : σ) : Option Bool × Folder × σ :=
  let yyyymmdd := sys.host.cal.Time2YYYYMMDD time_ns
  let folder := f.folder_ ++ [toDec yyyymmdd]
  let f := { f with yyyymmdd_ := yyyymmdd, folder_ := folder }
  match sys.there folder x with
  | none => (none, f, x)
  | some true => (some true, f, x)
  | some false =>
      let r := sys.create_directories folder x
      match r.1 with
      | none => (none, f, r.2)
      | some true => (some true, f, r.2)
      | some false => (some false, { f with yyyymmdd_ := 0 }, r.2)

/-- The last statement of `write`: the record goes to the channel's writer. -/
def writeTo (f : Folder) (s : StreamWriter) (request : LogRequest) (x : σ) :
    Outcome × Folder × σ :=
  let r := StreamWriter.write sys s request.time_ns request.data x
  (r.1, f.update request.channel r.2.1, r.2.2)

/-- `write` once the day directory is there.  A channel that is new to the folder gets a writer,
which stays in the map when its files cannot be opened. -/
def writeChannel (f : Folder) (request : LogRequest) (x : σ) : Outcome × Folder × σ :=
  match f.files_.lookup request.channel with
  | some s => writeTo sys f s request x
  | none =>
      let o := StreamWriter.openFile sys { folder_ := f.folder_ } request x
      let f := { f with files_ := f.files_ ++ [(request.channel, o.2.1)] }
      match o.1 with
      | .ret result =>
          if result ≤ 0 then (.ret result, f, o.2.2) else writeTo sys f o.2.1 request o.2.2
      | outcome => (outcome, f, o.2.2)

/-- `Folder::write` -/
def write (f : Folder) (request : LogRequest) (x : σ) : Outcome × Folder × σ :=
  if f.yyyymmdd_ = 0 then
    let c := create sys f request.time_ns x
    match c.1 with
    | none => (.thrown, c.2.1, c.2.2)
    | some false => (.ret (-EINVAL), c.2.1, c.2.2)
    | some true => writeChannel sys c.2.1 request c.2.2
  else writeChannel sys f request x

/-- The destructor: every writer flushes and closes its files. -/
def close (f : Folder) (x : σ) : σ := f.files_.foldl
    (fun x e => (StreamWriter.closeFile sys e.2 x).2) x

end Folder

end System

end Tracebox
