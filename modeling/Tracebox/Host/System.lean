import Tracebox.Host.World

/-!
# What the storage path asks of its system

The storage path meets the system at two boundaries: the file boundary of `file_io.h`, and the calls
of `std::filesystem` for paths, directories and sizes, most of which can throw.  A `System` is a
record of these calls over an arbitrary state, so that the same code can be run on different hosts.

* `System` — the calls.
* `World.system` — the link-free host of `Tracebox.Host.World`, on which files are written through
  and only `exists` and `create_directories` throw.
-/

namespace Tracebox

open Bytes

/-- The calls the storage path makes, over the states of a system. -/
structure System (σ : Type) where
  /-- the calendar, and the script of the file boundary -/
  host : Host
  /-- `std::filesystem::exists` of `dir + "/" + rel`; no answer when it throws -/
  exists_ : Path → Bytes → σ → Option Bool
  /-- `std::filesystem::exists` of a directory's own path -/
  there : Path → σ → Option Bool
  /-- `std::filesystem::create_directories`: an exception, or whether it was created -/
  create_directories : Path → σ → Option Bool × σ
  /-- the names in a directory in the order of `directory_iterator`, unless it throws -/
  list : Path → σ → Option (List Bytes)
  /-- `directory_entry::is_directory` of an entry -/
  is_directory : Path → Bytes → σ → Option Bool
  /-- `directory_entry::file_size` of an entry -/
  file_size : Path → Bytes → σ → Option ℕ
  /-- `std::filesystem::remove_all`; whether it got to its end -/
  remove_all : Path → σ → Bool × σ
  /-- how much there is to remove: the rounds a loop over removals is given -/
  size : σ → ℕ
  /-- `FileIO::open` in append mode on `dir + "/" + rel` -/
  open_ : Path → Bytes → σ → FileIo × σ
  write : FileIo → Bytes → σ → Bool × σ
  flush : FileIo → σ → Bool × σ
  /-- an installed fault injector is called; whether it returns -/
  inject : σ → Bool × σ
  /-- `std::chrono::system_clock::now()` -/
  now : σ → ℤ × σ

/-- The link-free host.  Directories can be listed, measured and removed. -/
def World.system (host : Host) : System World where
  host := host
  exists_ dir rel w := w.tree.exists_ dir rel
  there p w := some (w.tree.lookup p).isSome
  create_directories p w := match host.outcome w.calls with
    | .ok => if w.tree.blocked p then (none, w.called) else (some true, (w.mkdirs p).called)
    | .fail _ => (some false, w.called)
    | .throws => (none, w.called)
  list dir w := if w.tree.lookup dir = some .dir then some ((w.tree.children dir).map Prod.fst)
    else none
  is_directory dir name w := some (decide (w.tree.lookup (dir ++ [name]) = some .dir))
  file_size dir name w := match w.tree.lookup (dir ++ [name]) with
    | some (.file inode) => some (w.content inode).length
    | _ => none
  remove_all p w := (true, w.remove_all p)
  size w := w.tree.entries.length
  open_ := FileIo.open_ host
  write f := f.write host
  flush f := f.flush host
  inject w := (decide (host.outcome w.calls ≠ .throws), w.called)
  now w := w.now host

end Tracebox
