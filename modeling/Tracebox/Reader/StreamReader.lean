import Tracebox.Reader.FileReader

/-!
# `StreamReader`

One stream as a reader sees it: the index file, and for variable-size records the data file whose
name is found by cutting the index path at the first `.idx`.

Both files are opened once, and every `read` moves their stream positions, so `read` returns the
reader it leaves behind.
-/

namespace Tracebox

open Bytes

/-- The path a text denotes: components are separated by one or more slashes. -/
def Path.ofString (s : Bytes) : Path := (splitOn 47 s).filter fun c => ! c.isEmpty

/-- `StreamStatus`. -/
inductive StreamStatus where
  | kUnknown
  | kHealthy
  | kEmpty
  | kHeaderMismatch
  | kHeadersDifferent
  | kIndexMissing
  deriving DecidableEq, Repr

/-- `index_` is missing when the path was not accepted, `data_` for fixed-size records. -/
structure StreamReader where
  index_ : Option IndexFileReader := none
  data_ : Option DataFileReader := none
  status_ : StreamStatus := .kUnknown

namespace StreamReader

/-- `std::filesystem::is_regular_file` -/
def is_regular_file (v : View) (path : Path) : Bool :=
  match v.look path with
  | some (.file _) => true
  | _ => false

/-- The data file that belongs to an index file, `ext_pos` being the place of `.idx`. -/
def dataPath (path : Path) (ext_pos : ℕ) : Path :=
  Path.ofString (path.string.take ext_pos ++ dotData)

/-- The constructor: the data file is opened for an index with variable-size records. -/
def make (v : View) (path : Path) : StreamReader :=
  if ¬ is_regular_file v path then {}
  else match find dotIdx path.string with
    | none => {}
    | some ext_pos =>
        let index := IndexFileReader.make v path
        if index.records_cnt_ = 0 then { index_ := some index, status_ := .kEmpty }
        else if index.fixedSize then { index_ := some index, status_ := .kHealthy }
        else
          let data := DataFileReader.make v (dataPath path ext_pos)
          { index_ := some index, data_ := some data,
            status_ := if data.name ≠ index.name then .kHeadersDifferent else .kHealthy }

/-- At least one record belongs to the time range. -/
def matchTime (r : StreamReader) (start end_ : UInt64) : Bool :=
  decide (r.status_ = .kHealthy) && (match r.index_ with
    | some index => index.matchTime start end_
    | none => false)

/-- The accessors below dereference `index_`; they have no value without one. -/
def streamName (r : StreamReader) : Option Bytes := r.index_.map fun index => index.name
/-- `records_cnt`. -/
def records_cnt (r : StreamReader) : Option ℕ := r.index_.map fun index => index.records_cnt_
/-- `start_ns`. -/
def start_ns (r : StreamReader) : Option UInt64 := r.index_.map fun index => index.start_ns_
/-- `end_ns`. -/
def end_ns (r : StreamReader) : Option UInt64 := r.index_.map fun index => index.end_ns_

/-- The error of the index reader, or else that of the data reader. -/
def last_error (r : StreamReader) : Bytes :=
  match r.index_.bind fun index => index.last_error_ with
  | some error => error.text
  | none => match r.data_.bind fun data => data.last_error_ with
    | some error => error.text
    | none => []

/-- The fixed-size branch of `read`. -/
def readFixed (r : StreamReader) (index : IndexFileReader) (rec_index : ℕ) (time_ns : UInt64) :
    Option DataPiece × StreamReader :=
  let p := index.readPayload rec_index
  (p.1.map fun data => { time_ns := time_ns, data := data }, { r with index_ := some p.2 })

/-- The variable-size branch of `read`.  An empty record has size `0` as well, so the error decides
whether the data file gave a record. -/
def readVariable (r : StreamReader) (index : IndexFileReader) (rec_index : ℕ) :
    Option DataPiece × StreamReader :=
  let o := index.readOffset rec_index
  let r := { r with index_ := some o.2 }
  match r.data_ with
  | none => (none, r)
  | some data =>
      if o.1 = 0 then (none, r)
      else
        let d := data.read o.1
        let r := { r with data_ := some d.2.2 }
        if d.1 = 0 ∧ d.2.2.last_error_ ≠ none then (none, r)
        else (some (d.2.1.getD { time_ns := 0, data := [] }), r)

/-- The record at a position of the index; nothing where the source returns `false`. -/
def read (r : StreamReader) (rec_index : ℕ) : Option DataPiece × StreamReader :=
  match r.index_ with
  | none => (none, r)
  | some index =>
      if r.status_ ≠ .kHealthy then (none, r)
      else
        let t := index.timeOf rec_index
        let r := { r with index_ := some t.2 }
        if t.1 = 0 then (none, r)
        else if t.2.fixedSize then r.readFixed t.2 rec_index t.1
        else r.readVariable t.2 rec_index

/-- Calls of `read` one after the other on one reader. -/
def reads (r : StreamReader) : List ℕ → List (Option DataPiece) × StreamReader
  | [] => ([], r)
  | i :: is =>
      let d := r.read i
      let rest := d.2.reads is
      (d.1 :: rest.1, rest.2)

end StreamReader

end Tracebox
