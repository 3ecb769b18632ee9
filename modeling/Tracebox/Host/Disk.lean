import Tracebox.Lib.Paths
import Tracebox.Host.System

/-!
# A disk with links, special files and errors

The host the storage path really runs on.  Next to directories and files there are symbolic links,
which may lead anywhere or nowhere, and special files: FIFOs, sockets and devices.  Any call of
`std::filesystem` may be refused, for a permission or for any other reason the system has, and a
file's size lags behind what was written to it, because the file boundary is an `std::ofstream`.

* `DiskTree.resolve`, `DiskTree.resolveIn` — where a path leads.
* `Disk.system` — the calls on such a disk.
* `Disk.resolve_below` — **a path below a directory is read from that directory**.
-/

namespace Tracebox

open Bytes

/-! ## The tree -/

/-- What a directory entry is. -/
inductive DiskNode where
  | dir
  | file (inode : ℕ)
  /-- a FIFO, a socket or a device -/
  | special
  | link (target : Bytes)
  deriving DecidableEq

/-- How the system reads a component of a path. -/
def reading (c : Bytes) : Paths.Reading :=
  if Tree.NAME_MAX < c.length then .tooLong
  else if c = [] ∨ c = [46] then .stay
  else if c = [46, 46] then .up
  else .down

/-- A directory tree, whose entries have names the system can find them by.  The directory at the
root of the tree has no entry of its own. -/
structure DiskTree where
  table : AList fun _ : Path => DiskNode
  named : ∀ p n, table.lookup p = some n → ∀ c ∈ p, reading c = .down

namespace DiskTree

/-- The entry at a place. -/
def lookup (t : DiskTree) (p : Path) : Option DiskNode := t.table.lookup p

/-- Puts an entry at a place. -/
def put (t : DiskTree) (p : Path) (n : DiskNode) : DiskTree :=
  if h : ∀ c ∈ p, reading c = .down then
    { table := t.table.insert p n
      named := by
        intro q m hq
        by_cases hqp : q = p
        · rwa [hqp]
        · rw [AList.lookup_insert_ne hqp] at hq
          exact t.named q m hq }
  else t

/-- The entries that are kept. -/
def keep (t : DiskTree) (kept : Path → Bool) : DiskTree where
  table := Paths.keep t.table kept
  named p n h := by
    rw [Paths.lookup_keep] at h
    split_ifs at h
    exact t.named p n h

/-- The tree without a place and everything below it. -/
def prune (t : DiskTree) (p : Path) : DiskTree := t.keep fun q => ! decide (p <+: q)

/-- What a walk meets: a link's target is read from the root when it begins with `/`. -/
def kind : DiskNode → Paths.Kind Bytes
  | .dir => .dir
  | .file _ => .leaf
  | .special => .leaf
  | .link target => .link (target.head? == some 47) (splitOn 47 target)

/-- What stands at a place. -/
def node (t : DiskTree) (p : Path) : Option DiskNode := if p = [] then some .dir else t.lookup p

/-- What a walk looks at. -/
def look (t : DiskTree) (p : Path) : Option (Paths.Kind Bytes) := (t.node p).map kind

/-- The number of links the system goes through. -/
def MAXSYMLINKS : ℕ := 40

/-- Where an absolute path leads. -/
def walk (t : DiskTree) (p : Path) : Paths.Arrival Bytes :=
  Paths.walk reading t.look MAXSYMLINKS [] p

/-- Where the path of a directory leads. -/
def resolve (t : DiskTree) (dir : Path) : Paths.Arrival Bytes :=
  if Tree.PATH_MAX ≤ dir.string.length then .failed else t.walk dir

/-- Where `dir + "/" + rel` leads. -/
def resolveIn (t : DiskTree) (dir : Path) (rel : Bytes) : Paths.Arrival Bytes :=
  if Tree.pathTooLong dir rel then .failed else t.walk (dir ++ Tree.components rel)

/-- A directory is made, with those above it that are missing; the path is given innermost component
first.  No result when something else is in the way. -/
def makeDirsRev (t : DiskTree) : List Bytes → Option DiskTree
  | [] => some t
  | c :: cs =>
      match t.resolve (c :: cs).reverse with
      | .failed => none
      | .there p => if t.node p = some .dir then some t else none
      | _ => (makeDirsRev t cs).bind fun t' => match t'.resolve cs.reverse with
        | .there p =>
            if t'.node p = some .dir ∧ t'.node (p ++ [c]) = none then
              some (t'.put (p ++ [c]) .dir)
            else none
        | _ => none

variable {t : DiskTree}

lemma lookup_put {p : Path} (h : ∀ c ∈ p, reading c = .down) (n : DiskNode) (q : Path) :
    (t.put p n).lookup q = if q = p then some n else t.lookup q := by
  rw [put, dif_pos h, lookup, lookup]
  split_ifs with hq
  · rw [hq, AList.lookup_insert]
  · rw [AList.lookup_insert_ne hq]

lemma look_eq_dir_iff {p : Path} : t.look p = some .dir ↔ t.node p = some .dir := by
  rw [look]
  rcases t.node p with _ | (_ | _ | _ | _) <;> simp [kind]

lemma node_concat (dir : Path) (c : Bytes) : t.node (dir ++ [c]) = t.lookup (dir ++ [c]) := by
  rw [node, if_neg (by simp)]

/-- A name is read as an entry, unless it is too long. -/
lemma reading_of_name {c : Bytes} (hc : c ≠ [] ∧ c ≠ [46] ∧ c ≠ [46, 46]) :
    reading c = if Tree.NAME_MAX < c.length then .tooLong else .down := by
  rw [reading, if_neg (by simp [hc] : ¬ (c = [] ∨ c = [46])), if_neg hc.2.2]

lemma walk_of_resolve {dir q : Path} (h : t.resolve dir = .there q) : t.walk dir = .there q := by
  rw [resolve] at h
  split_ifs at h
  exact h

/-- **A path below a directory is read from that directory.** -/
lemma walk_below {dir top : Path} (h : t.walk dir = .there top)
    (hdir : t.node top = some .dir) : ∃ left, ∀ ds,
      t.walk (dir ++ ds) = Paths.walk reading t.look left top ds := by
  obtain ⟨left, -, hleft⟩ := Paths.walk_append h (look_eq_dir_iff.mpr hdir)
  exact ⟨left, hleft⟩

/-- What a name in a directory leads to stands there. -/
lemma exists_of_resolve {dir top q : Path} {c : Bytes} (h : t.resolve dir = .there top)
    (hdir : t.node top = some .dir) (hc : c ≠ [] ∧ c ≠ [46] ∧ c ≠ [46, 46])
    (hq : t.resolve (dir ++ [c]) = .there q) : ∃ n, t.lookup (top ++ [c]) = some n := by
  obtain ⟨left, hleft⟩ := walk_below (walk_of_resolve h) hdir
  have hwalk := walk_of_resolve hq
  obtain ⟨follow, hfollow⟩ := Paths.walk_eq_walkWith reading t.look left
  rw [hleft, hfollow, Paths.walkWith, reading_of_name hc] at hwalk
  by_cases hlong : Tree.NAME_MAX < c.length
  · simp [hlong] at hwalk
  · cases hlook : t.lookup (top ++ [c]) with
    | some n => exact ⟨n, rfl⟩
    | none => simp [hlong, look, node_concat, hlook] at hwalk

end DiskTree

/-! ## The disk -/

/-- The calls of `std::filesystem` that ask or remove something. -/
inductive FsCall where
  | exists_
  | list
  | is_directory
  | file_size
  | remove_all
  deriving DecidableEq

/-- The environment of a disk: what the file boundary does and what the system refuses. -/
structure DiskHost extends Host where
  /-- After so many calls at the file boundary, the system refuses a call on a path: a missing
  permission, too many open files, an error of the device. -/
  refuses : ℕ → FsCall → Bytes → Bool
  /-- what a `remove_all` that fails has removed by then -/
  unlinked : ℕ → Path → Bool
  /-- after so many calls at the file boundary, the bytes of a file that are still in a buffer -/
  held : ℕ → ℕ → ℕ

/-- A directory tree with the bytes that were written to its files, in the order they were
written. -/
structure Disk where
  tree : DiskTree
  inodes : ℕ
  tape : List (ℕ × UInt8)
  /-- calls made at the file boundary -/
  calls : ℕ
  /-- readings taken of the system clock -/
  ticks : ℕ

/-- A path as text. -/
def pathText (dir : Path) (rel : Bytes) : Bytes := dir.string ++ 47 :: cString rel

namespace Disk

/-- The content of a file, with what is still in a buffer. -/
def content (d : Disk) (inode : ℕ) : Bytes := Tape.project inode d.tape

/-- One more call at the file boundary was made. -/
def called (d : Disk) : Disk := { d with calls := d.calls + 1 }

/-- Bytes are written through a handle. -/
def append (d : Disk) (inode : ℕ) (bytes : Bytes) : Disk :=
  { d with tape := d.tape ++ Tape.tag inode bytes }

/-- An entry is put at a place. -/
def put (d : Disk) (p : Path) (n : DiskNode) : Disk := { d with tree := d.tree.put p n }

/-- A new, empty file. -/
def create (d : Disk) (p : Path) : Disk :=
  { d.put p (.file d.inodes) with inodes := d.inodes + 1 }

variable (host : DiskHost)

/-- `st_size` of a file: what has left the buffers. -/
def st_size (d : Disk) (inode : ℕ) : ℕ := (d.content inode).length - host.held d.calls inode

/-- `std::filesystem::exists`, from where the path leads. -/
def existsAt (call : FsCall) (text : Bytes) (d : Disk) (arrival : Paths.Arrival Bytes) :
    Option Bool :=
  if host.refuses d.calls call text then none
  else match arrival with
    | .there _ => some true
    | .free _ => some false
    | .notFound => some false
    | .failed => none

/-- `std::filesystem::exists` of `dir + "/" + rel`. -/
def exists_ (dir : Path) (rel : Bytes) (d : Disk) : Option Bool :=
  existsAt host .exists_ (pathText dir rel) d (d.tree.resolveIn dir rel)

/-- `std::filesystem::exists` of a directory's path. -/
def there (p : Path) (d : Disk) : Option Bool :=
  existsAt host .exists_ p.string d (d.tree.resolve p)

/-- `std::filesystem::create_directories` -/
def create_directories (p : Path) (d : Disk) : Option Bool × Disk :=
  match host.outcome d.calls with
  | .ok => match d.tree.makeDirsRev p.reverse with
    | some t => (some true, { d with tree := t }.called)
    | none => (none, d.called)
  | .fail _ => (some false, d.called)
  | .throws => (none, d.called)

/-- `directory_iterator` -/
def list (dir : Path) (d : Disk) : Option (List Bytes) :=
  if host.refuses d.calls .list dir.string then none
  else match d.tree.resolve dir with
    | .there p => if d.tree.node p = some .dir then some (Paths.names d.tree.table p) else none
    | _ => none

/-- `directory_entry::is_directory`.  The iteration brings the type of an entry along, so only a
link is asked for. -/
def is_directory (dir : Path) (name : Bytes) (d : Disk) : Option Bool :=
  match d.tree.resolve dir with
  | .there p => match d.tree.node (p ++ [name]) with
    | some .dir => some true
    | some (.link _) =>
        if host.refuses d.calls .is_directory (pathText dir name) then none
        else match d.tree.resolve (dir ++ [name]) with
          | .there q => some (decide (d.tree.node q = some .dir))
          | .free _ => some false
          | .notFound => some false
          | .failed => none
    | _ => some false
  | _ => some false

/-- `directory_entry::file_size`, which throws for everything but a regular file. -/
def file_size (dir : Path) (name : Bytes) (d : Disk) : Option ℕ :=
  if host.refuses d.calls .file_size (pathText dir name) then none
  else match d.tree.resolve (dir ++ [name]) with
    | .there q => match d.tree.node q with
      | some (.file inode) => some (st_size host d inode)
      | _ => none
    | _ => none

/-- `std::filesystem::remove_all`.  A link is removed and not followed. -/
def remove_all (p : Path) (d : Disk) : Bool × Disk :=
  match d.tree.resolve p.dropLast with
  | .there top =>
      let place := top ++ [p.getLastD []]
      if host.refuses d.calls .remove_all p.string then
        (false, { d with
          tree := d.tree.keep fun q => ! (decide (place <+: q) && host.unlinked d.calls q) })
      else (true, { d with tree := d.tree.prune place })
  | _ => (false, d)

/-- `FileIO::open` in append mode on `dir + "/" + rel`.  A link that leads to no file has its target
created.  Whatever else the path leads to is not opened; the program opens names only that it has
found nothing under. -/
def open_ (dir : Path) (rel : Bytes) (d : Disk) : FileIo × Disk :=
  match host.outcome d.calls, d.tree.resolveIn dir rel with
  | .ok, .there p => match d.tree.node p with
    | some (.file i) => (⟨i, true⟩, d.called)
    | _ => (.unopened, d.called)
  | .ok, .free p => (⟨d.inodes, true⟩, (d.create p).called)
  | _, _ => (.unopened, d.called)

/-- `FileIO::write` -/
def write (f : FileIo) (bytes : Bytes) (d : Disk) : Bool × Disk :=
  if ¬ f.is_open then (false, d.called)
  else match host.outcome d.calls with
    | .ok => (true, (d.append f.inode bytes).called)
    | .fail kept => (false, (d.append f.inode (bytes.take kept)).called)
    | .throws => (false, d.called)

/-- `FileIO::flush`; when it comes to the system is up to `held`. -/
def flush (_ : FileIo) (d : Disk) : Bool × Disk :=
  (decide (host.outcome d.calls = .ok), d.called)

/-- The calls on a disk. -/
def system : System Disk where
  host := host.toHost
  exists_ := exists_ host
  there := there host
  create_directories := create_directories host
  list := list host
  is_directory := is_directory host
  file_size := file_size host
  remove_all := remove_all host
  size d := d.tree.table.entries.length
  open_ := open_ host
  write := write host
  flush := flush host
  inject d := (decide (host.outcome d.calls ≠ .throws), d.called)
  now d := (host.clock d.ticks, { d with ticks := d.ticks + 1 })

variable {host}

lemma list_eq_some_iff {dir : Path} {d : Disk} {names : List Bytes} :
    list host dir d = some names ↔ host.refuses d.calls .list dir.string = false ∧
      ∃ p, d.tree.resolve dir = .there p ∧ d.tree.node p = some .dir ∧
        names = Paths.names d.tree.table p := by
  rw [list]
  cases host.refuses d.calls .list dir.string with
  | true => simp
  | false =>
      cases hres : d.tree.resolve dir with
      | there p =>
          by_cases hdir : d.tree.node p = some .dir
          · simp [hdir, eq_comm]
          · simp [hdir]
      | free p => simp
      | notFound => simp
      | failed => simp

/-- What `remove_all` takes away when it gets to its end. -/
lemma remove_all_eq_true {dir : Path} {name : Bytes} {d d' : Disk}
    (h : remove_all host (dir ++ [name]) d = (true, d')) :
    host.refuses d.calls .remove_all (Path.string (dir ++ [name])) = false ∧
      ∃ top, d.tree.resolve dir = .there top ∧
        d' = { d with tree := d.tree.prune (top ++ [name]) } := by
  simp only [remove_all, List.dropLast_concat, List.getLastD_concat] at h
  split at h
  · rename_i top htop
    split_ifs at h with hrefused
    · cases h
    · cases h
      exact ⟨by simpa using hrefused, top, htop, rfl⟩
  · simp at h

/-- A root directory that is empty. -/
def bare (root : Path) : Disk :=
  (⟨⟨∅, by simp⟩, 0, [], 0, 0⟩ : Disk).put root .dir

end Disk

/-- A host in January 2024 that refuses nothing and holds nothing back. -/
def DiskHost.january : DiskHost where
  toHost := Host.january
  refuses _ _ _ := false
  unlinked _ _ := false
  held _ _ := 0

end Tracebox
