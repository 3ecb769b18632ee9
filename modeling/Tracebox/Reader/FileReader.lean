import Tracebox.Host.World
import Tracebox.Writer.StreamWriter

/-!
# `FileReader`, `IndexFileReader` and `DataFileReader`

The readers of single files.  A reader looks at a `View` of the file tree: what is at a path, what
a directory lists and how a path is made canonical.  Views are taken of a world as it is, as it
was at an earlier point of its journal, or with its files cut short.

The input stream keeps its fail bit: once a read runs past the end, every later seek and read on
the same stream fails.  Error texts are rendered from `ReadError`.
-/

namespace Tracebox

open Bytes

/-! ## Views -/

/-- What a path leads to. -/
inductive Seen where
  | dir
  | file (content : Bytes)
  deriving DecidableEq

/-- The file tree as a reader finds it. -/
structure View where
  look : Path → Option Seen
  children : Path → List Bytes
  /-- `std::filesystem::weakly_canonical`; no result on an error. -/
  weakly_canonical : Path → Option Path
  /-- The memory behind the header object that is read from a path. -/
  overrun : Path → Bytes

/-- `.` and empty components stand for nothing and `..` takes one component away. -/
def normalize (p : Path) : Path :=
  p.foldl (fun q c => if c = [] ∨ c = [46] then q else if c = [46, 46] then q.dropLast
    else q ++ [c]) []

/-- A link-free view of a world that shows file `inode` at path `p` with content `show_ p inode`. -/
def World.view (w : World) (show_ : Path → ℕ → Bytes) (overrun : Path → Bytes) : View where
  look p := match w.tree.lookup p with
    | some .dir => some .dir
    | some (.file inode) => some (.file (show_ p inode))
    | none => none
  children p := (w.tree.children p).map Prod.fst
  weakly_canonical p := some (normalize p)
  overrun := overrun

/-! ## Input streams -/

/-- `std::ifstream` on a file that was opened.  `good` is false once the fail bit is set. -/
structure IfStream where
  bytes : Bytes
  pos : ℕ := 0
  good : Bool := true

/-- `seekg`: nothing happens on a stream that is not good. -/
def IfStream.seekg (f : IfStream) (pos : ℕ) : IfStream :=
  if f.good then { f with pos := pos } else f

/-- Reads `n` bytes; falling short sets the fail bit. -/
def IfStream.read (f : IfStream) (n : ℕ) : Bytes × IfStream :=
  if f.good then
    if f.pos + n ≤ f.bytes.length then (slice f.bytes f.pos n, { f with pos := f.pos + n })
    else (slice f.bytes f.pos n, { f with pos := f.bytes.length, good := false })
  else ([], f)

/-! ## Errors -/

/-- The errors `log_error` is called with. -/
inductive ReadError where
  | notOpened (path : Path)
  | couldNotOpen (path : Path)
  | noHeader (path : Path)
  | invalidIndex (index : ℕ) (path : Path) (size_bytes : ℕ)
  | noTimestamp (index : ℕ) (path : Path)
  | notFixed (path : Path)
  | noFixedRecord (index : ℕ) (path : Path)
  | noFixedPayload (index : ℕ) (path : Path)
  | notVariable (path : Path)
  | noVariableRecord (index : ℕ) (path : Path)
  | invalidOffset (offset : ℕ) (path : Path) (size_bytes : ℕ)
  | noPosition (path : Path) (offset : ℕ)
  | shortRead (count : ℕ) (path : Path) (offset : ℕ)
  | beyondEnd (offset : ℕ) (path : Path)
  deriving DecidableEq

/-- The text of an error. -/
def ReadError.text : ReadError → Bytes
  | notOpened path => ascii "File " ++ path.string ++ ascii " was not opened"
  | couldNotOpen path => ascii "Couldn't open file " ++ path.string
  | noHeader path => ascii "Couldn't read LogFileHeader from " ++ path.string
  | invalidIndex index path size_bytes => ascii "Invalid index " ++ toDec index ++
      ascii " for file " ++ path.string ++ ascii " which has " ++ toDec size_bytes ++
      ascii " bytes"
  | noTimestamp index path => ascii "Couldn't read timestamp from record " ++ toDec index ++
      ascii " in " ++ path.string
  | notFixed path => ascii "Can't read fixed payload from a variable length file " ++ path.string
  | noFixedRecord index path => ascii "Couldn't read fixed record " ++ toDec index ++
      ascii " from " ++ path.string
  | noFixedPayload index path => ascii "Couldn't read fixed payload " ++ toDec index ++
      ascii " from " ++ path.string
  | notVariable path => ascii "Can't read offset from a fixed length file " ++ path.string
  | noVariableRecord index path => ascii "Couldn't read variable index record " ++ toDec index ++
      ascii " from " ++ path.string
  | invalidOffset offset path size_bytes => ascii "Invalid offset " ++ toDec offset ++
      ascii " for file " ++ path.string ++ ascii " which has " ++ toDec size_bytes ++
      ascii " bytes"
  | noPosition path offset => ascii "Couldn't position file " ++ path.string ++
      ascii " to the offset " ++ toDec offset
  | shortRead count path offset => ascii "Couldn't read " ++ toDec count ++ ascii " from " ++
      path.string ++ ascii " at " ++ toDec offset
  | beyondEnd offset path => ascii "Record at " ++ toDec offset ++ ascii " in " ++ path.string ++
      ascii " extends beyond the end of the file"

/-! ## `FileReader` -/

/-- `FileReader`: an open file with its header and the last error. -/
structure FileReader where
  path_ : Path
  if_ : IfStream
  header_ : Option LogFileHeader := none
  /-- a `uint32_t` -/
  size_bytes_ : ℕ
  last_error_ : Option ReadError := none
  /-- what follows the header object in memory -/
  overrun : Bytes := []

namespace FileReader

/-- The content behind a path; `file_size` and opening fail for anything but a file. -/
def contentOf (v : View) (path : Path) : Bytes :=
  match v.look path with
  | some (.file content) => content
  | _ => []

/-- The constructor: the size modulo `2 ^ 32`, then the header of a file that is not empty. -/
def make (v : View) (path : Path) : FileReader :=
  let content := contentOf v path
  let size := content.length % 2 ^ 32
  if size = 0 then { path_ := path, if_ := { bytes := [] }, size_bytes_ := 0 }
  else
    let r := ({ bytes := content } : IfStream).read sizeofLogFileHeader
    if h : r.2.good ∧ r.1.length = sizeofLogFileHeader then
      { path_ := path, if_ := r.2, header_ := some (LogFileHeader.decode r.1 h.2),
        size_bytes_ := size, overrun := v.overrun path }
    else { path_ := path, if_ := r.2, size_bytes_ := size, last_error_ := some (.noHeader path) }

/-- `log_error`: the error takes the place of the one before. -/
def log_error (r : FileReader) (error : ReadError) : FileReader :=
  { r with last_error_ := some error }

/-- `clear_error`. -/
def clear_error (r : FileReader) : FileReader := { r with last_error_ := none }

/-- The stream name: the header field read as a C string. -/
def name (r : FileReader) : Bytes :=
  match r.header_ with
  | some h => cString (h.name_ ++ r.overrun)
  | none => []

end FileReader

/-! ## `IndexFileReader` -/

/-- `IndexFileReader`: the number of records and the times of the first and the last one. -/
structure IndexFileReader extends FileReader where
  /-- a `uint32_t` -/
  records_cnt_ : ℕ := 0
  start_ns_ : UInt64 := 0
  end_ns_ : UInt64 := 0

/-- The width of one index entry under a header. -/
def LogFileHeader.entrySize (h : LogFileHeader) : ℕ :=
  if h.record_size_ ≠ 0 then sizeofFixedRecordIdx + h.record_size_.toNat
  else sizeofVariableRecordIdx

namespace IndexFileReader

/-- Positions the stream at a record. -/
def selectRecord (r : IndexFileReader) (h : LogFileHeader) (index : ℕ) : IndexFileReader :=
  { r with if_ := r.if_.seekg (h.header_size_.toNat + index * h.entrySize) }

/-- An error of the file. -/
def withError (r : IndexFileReader) (error : ReadError) : IndexFileReader :=
  { r with toFileReader := r.toFileReader.log_error error }

/-- No error of the file. -/
def clearError (r : IndexFileReader) : IndexFileReader :=
  { r with toFileReader := r.toFileReader.clear_error }

/-- The timestamp of a record, `0` in case of an error. -/
def timeOf (r : IndexFileReader) (index : ℕ) : UInt64 × IndexFileReader :=
  let r := r.clearError
  match r.header_ with
  | none => (0, r.withError (.notOpened r.path_))
  | some h =>
      if r.records_cnt_ ≤ index ∨ h.file_type_ ≠ kIndexFile then
        (0, r.withError (.invalidIndex index r.path_ r.size_bytes_))
      else
        let r := r.selectRecord h index
        if ¬ r.if_.good then (0, r)
        else
          let d := r.if_.read 8
          let r := { r with if_ := d.2 }
          if ¬ d.2.good then (0, r.withError (.noTimestamp index r.path_))
          else (UInt64.ofNat (ofLE d.1), r)

/-- The constructor counts the complete entries and keeps the first and the last timestamp. -/
def make (v : View) (path : Path) : IndexFileReader :=
  let f := FileReader.make v path
  match f.header_ with
  | none => { toFileReader := f }
  | some h =>
      if f.size_bytes_ ≠ 0 ∧ h.header_size_.toNat ≤ f.size_bytes_ then
        let cnt := (f.size_bytes_ - h.header_size_.toNat) / h.entrySize
        let r : IndexFileReader := { toFileReader := f, records_cnt_ := cnt }
        let first := r.timeOf 0
        -- `records_cnt_ - 1` is a `uint32_t`
        let last := first.2.timeOf ((cnt + 2 ^ 32 - 1) % 2 ^ 32)
        { last.2 with start_ns_ := first.1, end_ns_ := last.1 }
      else { toFileReader := f }

/-- A readable header that identifies an index file. -/
def validIndex (r : IndexFileReader) : Bool :=
  match r.header_ with
  | none => false
  | some h => decide (h.header_size_.toNat ≤ r.size_bytes_ ∧
      sizeofLogFileHeader ≤ h.header_size_.toNat ∧ h.file_type_ = kIndexFile)

/-- The cached first and last timestamps overlap the range. -/
def matchTime (r : IndexFileReader) (start end_ : UInt64) : Bool :=
  decide (r.records_cnt_ ≠ 0 ∧ start ≤ end_ ∧ r.start_ns_ ≤ end_ ∧ start ≤ r.end_ns_)

/-- `fixedSize`: the records are in the index file itself. -/
def fixedSize (r : IndexFileReader) : Bool :=
  match r.header_ with
  | some h => decide (0 < h.record_size_)
  | none => true

/-- The payload of a fixed-size record; nothing in case of an error. -/
def readPayload (r : IndexFileReader) (index : ℕ) : Option Bytes × IndexFileReader :=
  let r := r.clearError
  match r.header_ with
  | none => (none, r.withError (.notOpened r.path_))
  | some h =>
      if h.record_size_ = 0 ∨ r.records_cnt_ ≤
        index then (none, r.withError (.notFixed r.path_))
      else
        let r := r.selectRecord h index
        if ¬ r.if_.good then (none, r)
        else
          let t := r.if_.read sizeofFixedRecordIdx
          if ¬ t.2.good then
            (none, { r with if_ := t.2 }.withError (.noFixedRecord index r.path_))
          else
            let d := t.2.read h.record_size_.toNat
            let r := { r with if_ := d.2 }
            if ¬ d.2.good then (none, r.withError (.noFixedPayload index r.path_))
            else (some d.1, r)

/-- The data offset of a variable-size record, `0` in case of an error. -/
def readOffset (r : IndexFileReader) (index : ℕ) : ℕ × IndexFileReader :=
  let r := r.clearError
  match r.header_ with
  | none => (0, r.withError (.notOpened r.path_))
  | some h =>
      if h.record_size_ ≠ 0 ∨ r.records_cnt_ ≤ index then
        (0, r.withError (.notVariable r.path_))
      else
        let r := r.selectRecord h index
        if ¬ r.if_.good then (0, r)
        else
          let d := r.if_.read sizeofVariableRecordIdx
          let r := { r with if_ := d.2 }
          if ¬ d.2.good then (0, r.withError (.noVariableRecord index r.path_))
          else (ofLE (slice d.1 8 4), r)

end IndexFileReader

/-! ## `DataFileReader` -/

/-- `DataFileReader`. -/
structure DataFileReader extends FileReader

namespace DataFileReader

/-- The constructor. -/
def make (v : View) (path : Path) : DataFileReader := ⟨FileReader.make v path⟩

/-- An error of the file. -/
def withError (r : DataFileReader) (error : ReadError) : DataFileReader :=
  ⟨r.toFileReader.log_error error⟩

/-- The record at a position of the data file.  The result is the payload size, `0` in case of an
error, and the record when there is one.  The bounds are computed in `size_t`. -/
def read (r : DataFileReader) (offset : ℕ) : ℕ × Option DataPiece × DataFileReader :=
  let r : DataFileReader := ⟨r.toFileReader.clear_error⟩
  match r.header_ with
  | none => (0, none, r.withError (.notOpened r.path_))
  | some h =>
      if r.size_bytes_ < h.header_size_.toNat ∨ offset < h.header_size_.toNat ∨
          toSize (r.size_bytes_ - sizeofVariableRecordDataHeader) < offset ∨
          h.file_type_ ≠ kDataFile then
        (0, none, r.withError (.invalidOffset offset r.path_ r.size_bytes_))
      else
        let s := r.if_.seekg offset
        let r : DataFileReader := ⟨{ r.toFileReader with if_ := s }⟩
        if ¬ s.good then (0, none, r.withError (.noPosition r.path_ offset))
        else
          let t := s.read sizeofVariableRecordDataHeader
          let r : DataFileReader := ⟨{ r.toFileReader with if_ := t.2 }⟩
          if ¬ t.2.good then
            (0, none, r.withError (.shortRead sizeofVariableRecordDataHeader r.path_ offset))
          else
            let time_ns := UInt64.ofNat (ofLE (slice t.1 0 8))
            let size := ofLE (slice t.1 8 4)
            if toSize (r.size_bytes_ - offset - sizeofVariableRecordDataHeader) < size then
              (0, none, r.withError (.beyondEnd offset r.path_))
            else
              let d := t.2.read size
              let r : DataFileReader := ⟨{ r.toFileReader with if_ := d.2 }⟩
              if ¬ d.2.good then
                (0, none, r.withError
                  (.shortRead size r.path_ (offset + sizeofVariableRecordDataHeader)))
              else (size, some { time_ns := time_ns, data := d.1 }, r)

end DataFileReader

end Tracebox
