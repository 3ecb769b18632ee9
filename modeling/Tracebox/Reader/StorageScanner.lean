import Tracebox.Reader.StreamReader

/-!
# `StorageScanner`

Discovery and reading of stored streams.  A stream is named by an identifier, its index path
relative to the storage root; identifiers come back from clients, so `resolveIndexPath` confines
them before anything is opened.
-/

namespace Tracebox

open Bytes

/-! ## Messages -/

/-- `DataStream` of `logger.proto` -/
structure DataStream where
  name : Bytes
  day : UInt32
  file : Bytes
  records_cnt : UInt32
  status : StreamStatus
  start_time_ns : UInt64
  end_time_ns : UInt64
  deriving DecidableEq

/-- `DataStreamsResponse` of `logger.proto` -/
structure DataStreamsResponse where
  stream : List DataStream := []
  data : List DataPiece := []
  errors : Bytes := []
  deriving DecidableEq

/-! ## Paths -/

/-- `path::extension`: from the last dot of the file name on, unless the name begins there. -/
def extension (filename : Bytes) : Bytes :=
  if filename = [46, 46] then []
  else
    let stem := (filename.reverse.dropWhile (· ≠ 46)).reverse
    if stem.length ≤ 1 then [] else filename.drop (stem.length - 1)

/-- `path::filename` of a text: what follows the last slash. -/
def filename (file : Bytes) : Bytes := (splitOn 47 file).getLastD []

/-- The relative path from `base` to `p` after their common beginning. -/
def lexically_relative : Path → Path → Path
  | [], [] => [[46]]
  | c :: p, d :: base => if c = d then lexically_relative p base
      else List.replicate (base.length + 1) [46, 46] ++ c :: p
  | p, base => List.replicate base.length [46, 46] ++ p

/-- `path::generic_string` of a relative path. -/
def generic_string (p : Path) : Bytes := (p.intersperse [47]).flatten

/-- The canonical storage root. -/
structure StorageScanner where
  folder_ : Path
  deriving DecidableEq

namespace StorageScanner

/-- The constructor makes the root canonical; no scanner when that throws. -/
def make (v : View) (folder : Path) : Option StorageScanner :=
  (v.weakly_canonical folder).map fun root => ⟨root⟩

/-! ## Identifiers -/

/-- `isWithinRoot`: component by component. -/
def isWithinRoot (root candidate : Path) : Bool := root.isPrefixOf candidate

/-- `hasRejectedComponent`: a component is `..`. -/
def hasRejectedComponent (path : Path) : Bool := path.any fun c => c == [46, 46]

/-- A client-supplied identifier as a confined path to a valid index file. -/
def resolveIndexPath (s : StorageScanner) (v : View) (file : Bytes) : Option Path :=
  let requested := splitOn 47 file
  if file = [] ∨ 0 ∈ file ∨ 92 ∈ file then none
  else if file.head? = some 47 ∨ hasRejectedComponent requested ∨
      extension (filename file) ≠ dotIdx then none
  else match v.weakly_canonical (s.folder_ ++ requested) with
    | none => none
    | some candidate =>
        if ¬ isWithinRoot s.folder_ candidate ∨
          ¬ StreamReader.is_regular_file v candidate then none
        else if (IndexFileReader.make v candidate).validIndex then some candidate
        else none

/-- `std::filesystem::relative`; no result when it throws. -/
def streamIdentifier (s : StorageScanner) (v : View) (path : Path) : Option Bytes := do
  let p ← v.weakly_canonical path
  let base ← v.weakly_canonical s.folder_
  return generic_string (lexically_relative p base)

/-! ## Discovery -/

/-- The description of a stream that matched. -/
def describe (reader : StreamReader) (day : UInt32) (identifier : Bytes) : DataStream where
  name := reader.streamName.getD []
  day := day
  file := identifier
  records_cnt := UInt32.ofNat (reader.records_cnt.getD 0)
  status := reader.status_
  start_time_ns := reader.start_ns.getD 0
  end_time_ns := reader.end_ns.getD 0

/-- The streams one identifier contributes. -/
def streamOf (s : StorageScanner) (v : View) (start end_ : UInt64) (day : UInt32)
    (identifier : Bytes) : List DataStream :=
  match s.resolveIndexPath v identifier with
  | none => []
  | some index_path =>
      let reader := StreamReader.make v index_path
      if reader.matchTime start end_ then [describe reader day identifier] else []

/-- The loop over the entries of a day directory.  An exception leaves it with what was added so
far, since the caller catches it. -/
def extractStreams (s : StorageScanner) (v : View) (path : Path) (start end_ : UInt64)
    (day : UInt32) : List Bytes → List DataStream
  | [] => []
  | name :: names =>
      if v.look (path ++ [name]) ≠ some .dir ∧ extension name = dotIdx then
        match s.streamIdentifier v (path ++ [name]) with
        | none => []
        | some identifier =>
            s.streamOf v start end_ day identifier ++
              s.extractStreams v path start end_ day names
      else s.extractStreams v path start end_ day names

/-- The streams of one entry of the storage root: a directory whose name begins with a number in
the day range. -/
def streamsOfDay (s : StorageScanner) (cal : Calendar) (v : View) (start end_ : UInt64)
    (name : Bytes) : List DataStream :=
  if v.look (s.folder_ ++ [name]) = some .dir then
    match stoul name with
    | none => []
    | some day =>
        if cal.Time2YYYYMMDD start ≤ day ∧ day ≤ cal.Time2YYYYMMDD end_ then
          s.extractStreams v (s.folder_ ++ [name]) start end_ (UInt32.ofNat day)
            (v.children (s.folder_ ++ [name]))
        else []
  else []

/-- No response when the storage root cannot be iterated and the iterator throws. -/
def getStreams (s : StorageScanner) (cal : Calendar) (v : View) (start end_ : UInt64) :
    Option DataStreamsResponse :=
  if v.look s.folder_ = some .dir then
    some { stream := (v.children s.folder_).flatMap (s.streamsOfDay cal v start end_) }
  else none

/-! ## Reading -/

/-- The loop of `getData` over the remaining positions.  `returned` is the number of pieces in the
result so far. -/
def collect (start_time end_time : UInt64) (max_size : ℕ) :
    ℕ → ℕ → StreamReader → DataStreamsResponse → DataStreamsResponse
  | 0, _, _, result => result
  | remaining + 1, idx, reader, result =>
      if result.data.length < max_size then
        let r := reader.read idx
        match r.1 with
        | none => collect start_time end_time max_size remaining (idx + 1) r.2
            { result with errors := r.2.last_error }
        | some data =>
            if start_time ≤ data.time_ns ∧ data.time_ns ≤ end_time then
              collect start_time end_time max_size remaining (idx + 1) r.2
                { result with data := result.data ++ [data] }
            else collect start_time end_time max_size remaining (idx + 1) r.2 result
      else result

/-- `getData`: the records of a page that are in the range, and the errors of those that are not
read. -/
def getData (s : StorageScanner) (v : View) (file : Bytes) (start_time end_time : UInt64)
    (start_idx max_size : UInt32) : DataStreamsResponse :=
  match s.resolveIndexPath v file with
  | none => { errors := ascii "invalid reader path" }
  | some index_path =>
      let reader := StreamReader.make v index_path
      if ¬ reader.matchTime start_time end_time then {}
      else
        let cnt := reader.records_cnt.getD 0
        if cnt ≤ start_idx.toNat then {}
        else collect start_time end_time max_size.toNat (cnt - start_idx.toNat) start_idx.toNat
          reader {}

end StorageScanner

end Tracebox
