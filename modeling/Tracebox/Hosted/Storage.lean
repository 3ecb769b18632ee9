import Tracebox.Hosted.Writer

/-!
# The backend and the storage over any system

`FilesystemStorageBackend` and `Storage` over a `System`.  The iteration of a directory throws when
it cannot be opened; `is_directory` and `file_size` throw entry by entry.  `usedBytes` has a handler
round each day, which keeps the sum so far; `deleteFolder` has none.
-/

namespace Tracebox

open Bytes

namespace System

variable {σ : Type} (sys : System σ)

/-! ## Measuring -/

/-- The subdirectories among these entries; the first one that `is_directory` throws for ends the
iteration. -/
def directories (dir : Path) (x : σ) : List Bytes → Option (List Bytes)
  | [] => some []
  | name :: names => match sys.is_directory dir name x with
    | none => none
    | some true => (directories dir x names).map (name :: ·)
    | some false => directories dir x names

/-- The bytes of the entries that are not directories, up to the first one that throws. -/
def countedBytes (dir : Path) (x : σ) : List Bytes → ℕ
  | [] => 0
  | name :: names => match sys.is_directory dir name x with
    | none => 0
    | some true => countedBytes dir x names
    | some false => match sys.file_size dir name x with
      | none => 0
      | some bytes => bytes + countedBytes dir x names

/-- The bytes of the entries that are not directories; no result when one of them throws. -/
def sizesOf (dir : Path) (x : σ) : List Bytes → Option ℕ
  | [] => some 0
  | name :: names => match sys.is_directory dir name x with
    | none => none
    | some true => sizesOf dir x names
    | some false => match sys.file_size dir name x with
      | none => none
      | some bytes => (sizesOf dir x names).map (bytes + ·)

namespace Backend

/-- The subdirectories of the storage root. -/
def dayDirs (b : FilesystemStorageBackend) (x : σ) : Option (List Bytes) :=
  (sys.list b.folder_path_ x).bind (directories sys b.folder_path_ x)

/-- What the handler of `usedBytes` leaves of one directory. -/
def measured (b : FilesystemStorageBackend) (x : σ) (name : Bytes) : ℕ :=
  match sys.list (b.folder_path_ ++ [name]) x with
  | none => 0
  | some names => countedBytes sys (b.folder_path_ ++ [name]) x names

/-- `FilesystemStorageBackend::usedBytes` -/
def usedBytes (b : FilesystemStorageBackend) (x : σ) : Option ℕ :=
  (dayDirs sys b x).map fun names => (names.map (measured sys b x)).sum

/-- `FilesystemStorageBackend::findOldest` -/
def findOldest (b : FilesystemStorageBackend) (x : σ) : Option ℤ :=
  (dayDirs sys b x).map fun names => names.foldl (fun oldest name => match stoi name with
    | some day => if day < oldest then day else oldest
    | none => oldest) FilesystemStorageBackend.kMaxDay

/-- `FilesystemStorageBackend::deleteFolder`; no result when it throws. -/
def deleteFolder (b : FilesystemStorageBackend) (folder : Bytes) (x : σ) : Option ℕ × σ :=
  let dir := b.folder_path_ ++ [folder]
  match (sys.list dir x).bind (sizesOf sys dir x) with
  | none => (none, x)
  | some freed =>
      let r := sys.remove_all dir x
      if r.1 then (some freed, r.2) else (none, r.2)

/-- `FilesystemStorageBackend::removeOldest`, its return value with `freed_bytes`; no result when it
throws. -/
def removeOldest (b : FilesystemStorageBackend) (x : σ) : Option (Bool × ℕ) × σ :=
  match findOldest sys b x with
  | none => (none, x)
  | some oldest =>
      if oldest = FilesystemStorageBackend.kMaxDay then (some (false, 0), x)
      else
        let r := deleteFolder sys b (to_string oldest) x
        (r.1.map fun freed => (true, freed), r.2)

/-- The directory of the request's day. -/
def dayDir (root : Path) (time_ns : UInt64) : Path :=
  root ++ [toDec (sys.host.cal.Time2YYYYMMDD time_ns)]

/-- `FilesystemStorageBackend::write` -/
def write (b : FilesystemStorageBackend) (request : LogRequest) (x : σ) :
    Outcome × FilesystemStorageBackend × σ :=
  if b.folder_.sameDay sys.host request.time_ns then
    let r := Folder.write sys b.folder_ request x
    (r.1, { b with folder_ := r.2.1 }, r.2.2)
  else
    -- the new folder takes the old one's place, whose writers are closed on the way
    let x := Folder.close sys b.folder_ x
    let r := Folder.write sys { folder_ := b.folder_path_ } request x
    (r.1, { b with folder_ := r.2.1 }, r.2.2)

/-- A request goes to the backend. -/
def writeStep (x : FilesystemStorageBackend × σ) (request : LogRequest) :
    Option (FilesystemStorageBackend × σ) :=
  some (write sys x.1 request x.2).2

end Backend

/-! ## The storage -/

namespace Storage

/-- How a loop that calls `removeOldest` ends. -/
inductive Room (σ : Type) where
  /-- the loop condition became false -/
  | done (available_bytes : ℕ) (x : σ)
  /-- `removeOldest` found nothing to remove -/
  | full (available_bytes : ℕ) (x : σ)
  | thrown (available_bytes : ℕ) (x : σ)
  | hangs

/-- The loop of the constructor: `removeOldest` until the budget covers `used`.  Its return value is
not looked at. -/
def startLoop (b : FilesystemStorageBackend) (used : ℕ) : ℕ → ℕ → σ → Room σ
  | 0, _, _ => .hangs
  | fuel + 1, available, x =>
      if used ≤ available then .done available x
      else match Backend.removeOldest sys b x with
        | (none, x) => .thrown available x
        | (some r, x) => startLoop b used fuel ((available + r.2) % 2 ^ 64) x

/-- The constructor; no storage when it throws or its loop never ends. -/
def make (folder : Path) (max_size : ℤ) (x : σ) : Option (Storage × σ) :=
  let b := FilesystemStorageBackend.make folder
  (Backend.usedBytes sys b x).bind fun used =>
    match startLoop sys b used (sys.size x + 2) (toSize max_size) x with
    | .done available x => some (⟨(available + 2 ^ 64 - used) % 2 ^ 64, b⟩, x)
    | _ => none

/-- The loop of `write`: oldest days go until `need` bytes are available. -/
def makeRoom (b : FilesystemStorageBackend) (need : ℕ) : ℕ → ℕ → σ → Room σ
  | 0, _, _ => .hangs
  | fuel + 1, available, x =>
      if need ≤ available then .done available x
      else match Backend.removeOldest sys b x with
        | (none, x) => .thrown available x
        | (some (false, _), x) => .full available x
        | (some (true, freed), x) => makeRoom b need fuel ((available + freed) % 2 ^ 64) x

/-- The record goes to the backend, and the bytes it reports come off the budget. -/
def writeToBackend (st : Storage) (available : ℕ) (request : LogRequest) (x : σ) :
    Outcome × Storage × σ :=
  let r := Backend.write sys st.backend_ request x
  match r.1 with
  | .ret written =>
      (.ret written,
        ⟨if 0 < written then (available + 2 ^ 64 - written.toNat) % 2 ^ 64 else available,
          r.2.1⟩, r.2.2)
  | outcome => (outcome, ⟨available, r.2.1⟩, r.2.2)

/-- The statements of `write` after its loop. -/
def afterLoop (st : Storage) (request : LogRequest) (x : σ) : Room σ → Outcome × Storage × σ
  | .done available x => writeToBackend sys st available request x
  | .full available x => (.ret 0, { st with available_bytes_ := available }, x)
  | .thrown available x => (.thrown, { st with available_bytes_ := available }, x)
  | .hangs => (.hangs, st, x)

/-- `Storage::write` -/
def write (st : Storage) (request : LogRequest) (x : σ) : Outcome × Storage × σ :=
  afterLoop sys st request x (makeRoom sys st.backend_ (maxRecordSize request.data.length)
    (sys.size x + 1) st.available_bytes_ x)

/-- A request goes to the storage. -/
def writeStep (x : Storage × σ) (request : LogRequest) : Option (Storage × σ) :=
  some (write sys x.1 request x.2).2

end Storage

end System

end Tracebox
