import Tracebox.Writer.StreamWriter

/-!
# `Folder`, `FilesystemStorageBackend` and `Storage`

The storage path above a single stream: a folder owns one writer per channel for one day, the
backend owns the active folder and knows the day directories, and `Storage` owns the byte budget.

The code is translated here for the link-free host of `Tracebox.Host.World`: directories can be
listed, measured and removed, so that the `try` around each day in `usedBytes` catches nothing and
no `file_size` throws, and what was appended is measured at once.  `Tracebox.Hosted.Storage` has the
same code with all its exceptions for any host, and `Tracebox.Hosted.OnWorld` shows that the two
agree.

The `size_t` budget is a natural with explicit arithmetic modulo `2 ^ 64`; the byte counts of
directories are far below that and are plain sums.  The loops that may not end in the source run
on fuel here and say so (`Outcome.hangs`) when it is spent.
-/

namespace Tracebox

open Bytes

/-! ## Folder -/

/-- `Folder`: a day, its directory, and a stream for each channel. -/
structure Folder where
  /-- the day in the format `YYYYMMDD`, `0` before the first write -/
  yyyymmdd_ : ℕ := 0
  folder_ : Path
  files_ : List (Bytes × StreamWriter) := []
  deriving DecidableEq

namespace Folder

variable (host : Host)

/-- `create_directories` on a path that does not exist: an exception, or whether it was
created. -/
def create_directories (p : Path) (w : World) : Option Bool × World :=
  match host.outcome w.calls with
  | .ok => if w.tree.blocked p then (none, w.called) else (some true, (w.mkdirs p).called)
  | .fail _ => (some false, w.called)
  | .throws => (none, w.called)

/-- The day directory is created on the first write. -/
def create (f : Folder) (time_ns : UInt64) (w : World) : Option Bool × Folder × World :=
  let yyyymmdd := host.cal.Time2YYYYMMDD time_ns
  let folder := f.folder_ ++ [toDec yyyymmdd]
  let f := { f with yyyymmdd_ := yyyymmdd, folder_ := folder }
  if w.tree.lookup folder ≠ none then (some true, f, w)
  else
    let r := create_directories host folder w
    match r.1 with
    | none => (none, f, r.2)
    | some true => (some true, f, r.2)
    | some false => (some false, { f with yyyymmdd_ := 0 }, r.2)

/-- Replaces the writer of a channel. -/
def update (f : Folder) (channel : Bytes) (s : StreamWriter) : Folder :=
  { f with files_ := f.files_.map fun e => if e.1 = channel then (channel, s) else e }

/-- The last statement of `write`: the record goes to the channel's writer. -/
def writeTo (f : Folder) (s : StreamWriter) (request : LogRequest) (w : World) :
    Outcome × Folder × World :=
  let r := s.write host request.time_ns request.data w
  (r.1, f.update request.channel r.2.1, r.2.2)

/-- `write` once the day directory is there.  A channel that is new to the folder gets a writer,
which stays in the map when its files cannot be opened. -/
def writeChannel (f : Folder) (request : LogRequest) (w : World) : Outcome × Folder × World :=
  match f.files_.lookup request.channel with
  | some s => f.writeTo host s request w
  | none =>
      let o := ({ folder_ := f.folder_ } : StreamWriter).openFile host request w
      let f := { f with files_ := f.files_ ++ [(request.channel, o.2.1)] }
      match o.1 with
      | .ret result =>
          if result ≤ 0 then (.ret result, f, o.2.2) else f.writeTo host o.2.1 request o.2.2
      | outcome => (outcome, f, o.2.2)

/-- `Folder::write`: the first request gives the folder its day and its directory. -/
def write (f : Folder) (request : LogRequest) (w : World) : Outcome × Folder × World :=
  if f.yyyymmdd_ = 0 then
    let c := f.create host request.time_ns w
    match c.1 with
    | none => (.thrown, c.2.1, c.2.2)
    | some false => (.ret (-EINVAL), c.2.1, c.2.2)
    | some true => c.2.1.writeChannel host request c.2.2
  else f.writeChannel host request w

/-- `sameDay`: the record is of the folder's day. -/
def sameDay (f : Folder) (time_ns : UInt64) : Bool :=
  decide (f.yyyymmdd_ = host.cal.Time2YYYYMMDD time_ns)

/-- The destructor: every writer flushes and closes its files. -/
def close (f : Folder) (w : World) : World :=
  f.files_.foldl (fun w e => (e.2.closeFile host w).2) w

end Folder

/-! ## Backend -/

/-- `FilesystemStorageBackend`: the root and the folder that is being written. -/
structure FilesystemStorageBackend where
  folder_path_ : Path
  folder_ : Folder
  deriving DecidableEq

namespace FilesystemStorageBackend

variable (host : Host)

/-- No day is as late. -/
def kMaxDay : ℤ := 99999999

/-- The constructor: the folder has no day yet. -/
def make (folder : Path) : FilesystemStorageBackend :=
  { folder_path_ := folder, folder_ := { folder_ := folder } }

/-- The bytes of the files directly inside a directory. -/
def dirBytes (w : World) (dir : Path) : ℕ :=
  ((w.tree.children dir).map fun e => match e.2 with
    | .dir => 0
    | .file inode => (w.content inode).length).sum

/-- The directories directly below the storage root. -/
def dayDirs (b : FilesystemStorageBackend) (w : World) : List Bytes :=
  (w.tree.children b.folder_path_).filterMap fun e => match e.2 with
    | .dir => some e.1
    | .file _ => none

/-- `usedBytes`: the regular files directly in the day directories. -/
def usedBytes (b : FilesystemStorageBackend) (w : World) : ℕ :=
  ((b.dayDirs w).map fun name => dirBytes w (b.folder_path_ ++ [name])).sum

/-- `findOldest`: the least number that a name begins with. -/
def findOldest (b : FilesystemStorageBackend) (w : World) : ℤ :=
  (b.dayDirs w).foldl (fun oldest name => match stoi name with
    | some day => if day < oldest then day else oldest
    | none => oldest) kMaxDay

/-- No result when the directory is missing and its iteration throws. -/
def deleteFolder (b : FilesystemStorageBackend) (folder : Bytes) (w : World) :
    Option (ℕ × World) :=
  let dir := b.folder_path_ ++ [folder]
  if w.tree.lookup dir = some .dir then some (dirBytes w dir, w.remove_all dir) else none

/-- A deletion that does not throw. -/
lemma deleteFolder_eq_some {b : FilesystemStorageBackend} {folder : Bytes} {freed : ℕ}
    {w w' : World} (h : b.deleteFolder folder w = some (freed, w')) :
    w.tree.lookup (b.folder_path_ ++ [folder]) = some .dir ∧
      freed = dirBytes w (b.folder_path_ ++ [folder]) ∧
      w' = w.remove_all (b.folder_path_ ++ [folder]) := by
  simp only [deleteFolder] at h
  split_ifs at h with hdir
  simp only [Option.some.injEq, Prod.mk.injEq] at h
  exact ⟨hdir, h.1.symm, h.2.symm⟩

/-- The return value with `freed_bytes`; no result when the root or the chosen directory cannot
be iterated. -/
def removeOldest (b : FilesystemStorageBackend) (w : World) : Option (Bool × ℕ × World) :=
  if w.tree.lookup b.folder_path_ ≠ some .dir then none
  else if b.findOldest w = kMaxDay then some (false, 0, w)
  else (b.deleteFolder (to_string (b.findOldest w)) w).map fun r => (true, r.1, r.2)

/-- `FilesystemStorageBackend::write`: a record of another day gets a new folder. -/
def write (b : FilesystemStorageBackend) (request : LogRequest) (w : World) :
    Outcome × FilesystemStorageBackend × World :=
  if b.folder_.sameDay host request.time_ns then
    let r := b.folder_.write host request w
    (r.1, { b with folder_ := r.2.1 }, r.2.2)
  else
    -- the new folder takes the old one's place, whose writers are closed on the way
    let w := b.folder_.close host w
    let r := ({ folder_ := b.folder_path_ } : Folder).write host request w
    (r.1, { b with folder_ := r.2.1 }, r.2.2)

/-- The destructor. -/
def destroy (b : FilesystemStorageBackend) (w : World) : World := b.folder_.close host w

end FilesystemStorageBackend

/-! ## Storage -/

/-- `Storage`: the bytes that are still available, and the backend. -/
structure Storage where
  available_bytes_ : ℕ
  backend_ : FilesystemStorageBackend
  deriving DecidableEq

namespace Storage

variable (host : Host)

/-- How a loop that calls `removeOldest` ends. -/
inductive Room where
  /-- the loop condition became false -/
  | done (available_bytes : ℕ) (w : World)
  /-- `removeOldest` found nothing to remove -/
  | full (available_bytes : ℕ) (w : World)
  | thrown (available_bytes : ℕ) (w : World)
  | hangs

/-- The loop of the constructor: `removeOldest` until the budget covers `used`.  Its return value
is not looked at. -/
def startLoop (b : FilesystemStorageBackend) (used : ℕ) : ℕ → ℕ → World → Room
  | 0, _, _ => .hangs
  | fuel + 1, available, w =>
      if used ≤ available then .done available w
      else match b.removeOldest w with
        | none => .thrown available w
        | some r => startLoop b used fuel ((available + r.2.1) % 2 ^ 64) r.2.2

/-- The constructor; no storage when the root cannot be iterated or the loop does not get to its
end.  Once every directory is gone `removeOldest` frees nothing, and a loop that still goes on
never ends. -/
def make (folder : Path) (max_size : ℤ) (w : World) : Option (Storage × World) :=
  let b := FilesystemStorageBackend.make folder
  let used := b.usedBytes w
  if w.tree.lookup folder ≠ some .dir then none
  else match startLoop b used (w.tree.entries.length + 2) (toSize max_size) w with
    | .done available w => some (⟨(available + 2 ^ 64 - used) % 2 ^ 64, b⟩, w)
    | _ => none

/-- The loop of `write`: oldest days go until `need` bytes are available. -/
def makeRoom (b : FilesystemStorageBackend) (need : ℕ) : ℕ → ℕ → World → Room
  | 0, _, _ => .hangs
  | fuel + 1, available, w =>
      if need ≤ available then .done available w
      else match b.removeOldest w with
        | none => .thrown available w
        | some (false, _, w) => .full available w
        | some (true, freed, w) => makeRoom b need fuel ((available + freed) % 2 ^ 64) w

/-- The record goes to the backend, and the bytes it reports come off the budget. -/
def writeToBackend (st : Storage) (available : ℕ) (request : LogRequest) (w : World) :
    Outcome × Storage × World :=
  let r := st.backend_.write host request w
  match r.1 with
  | .ret written =>
      (.ret written,
        ⟨if 0 < written then (available + 2 ^ 64 - written.toNat) % 2 ^ 64 else available,
          r.2.1⟩, r.2.2)
  | outcome => (outcome, ⟨available, r.2.1⟩, r.2.2)

/-- The statements of `write` after its loop. -/
def afterLoop (st : Storage) (request : LogRequest) (w : World) :
    Room → Outcome × Storage × World
  | .done available w => st.writeToBackend host available request w
  | .full available w => (.ret 0, { st with available_bytes_ := available }, w)
  | .thrown available w => (.thrown, { st with available_bytes_ := available }, w)
  | .hangs => (.hangs, st, w)

/-- Every round of the loop deletes a directory, so the entries of the tree bound it. -/
def write (st : Storage) (request : LogRequest) (w : World) : Outcome × Storage × World :=
  st.afterLoop host request w (makeRoom st.backend_ (maxRecordSize request.data.length)
    (w.tree.entries.length + 1) st.available_bytes_ w)

/-- A sequence of calls: the outcome of each and what they leave behind. -/
def run (st : Storage) : List LogRequest → World → List Outcome × Storage × World
  | [], w => ([], st, w)
  | request :: requests, w =>
      let r := st.write host request w
      let rest := run r.2.1 requests r.2.2
      (r.1 :: rest.1, rest.2)

end Storage

end Tracebox
