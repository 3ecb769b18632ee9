import Tracebox.Hosted.Storage
import Tracebox.Storage.Accounting
import Tracebox.Storage.Budget
import Tracebox.Stream.Collisions

/-!
# The storage path on the link-free host

`Tracebox.Writer` says what the storage path does on the host of `Tracebox.Host.World`, with the
loops bounded by the entries of the tree.  `Tracebox.Hosted` says it over any system, with the loops
bounded by what the source bounds them by.  On the link-free host the two are the same functions.

* `World.buffered` — the link-free host, on which the size of a file lags behind what was written.
* `freshName_eq` — the bound of the search for a name does not matter.
* `backend_write_eq` — **the backend does the same on both**, also when sizes lag behind.
* `storage_write_eq`, `storage_make_eq` — **so does the storage**, when they do not.
-/

namespace Tracebox

open Bytes

/-- The link-free host, on which the last bytes of a file can still be in the buffer of the stream
that wrote them; `file_size` does not see those. -/
def World.buffered (host : Host) (held : World → ℕ → ℕ) : System World :=
  { World.system host with
    file_size := fun dir name w => match w.tree.lookup (dir ++ [name]) with
      | some (.file inode) => some ((w.content inode).length - held w inode)
      | _ => none }

namespace System

variable (host : Host) (held : World → ℕ → ℕ)

lemma tryAll_eq (calls : List (World → Bool × World)) (w : World) :
    tryAll calls w = Tracebox.tryAll calls w := by
  induction calls generalizing w with
  | nil => rfl
  | cons call calls ih => rw [tryAll, Tracebox.tryAll, ih]

namespace StreamWriter

open Tracebox.StreamWriter (candidate exists_candidate nameLoop_hangs_iff nameLoop)

lemma nameTaken_eq (dir : Path) (name : Bytes) (w : World) :
    nameTaken (World.buffered host held) dir name w =
      Tracebox.StreamWriter.nameTaken w.tree dir name := rfl

lemma searchName_eq (dir : Path) (base : Bytes) (w : World) :
    ∀ (fuel suffix : ℕ) (name : Bytes),
    searchName (World.buffered host held) dir base w fuel suffix name =
      Tracebox.StreamWriter.searchName w.tree dir base fuel suffix name := by
  intro fuel
  induction fuel with
  | zero => intro suffix name; rfl
  | succ fuel ih =>
      intro suffix name
      rw [searchName, Tracebox.StreamWriter.searchName, nameTaken_eq]
      rcases Tracebox.StreamWriter.nameTaken w.tree dir name with _ | _ | _
      · rfl
      · rfl
      · exact ih _ _

/-- A search that ends ends the same way with more rounds. -/
lemma searchName_mono {t : Tree} {dir : Path} {base : Bytes} {fuel more : ℕ}
    (hle : fuel ≤ more) : ∀ {suffix : ℕ} {name : Bytes},
      Tracebox.StreamWriter.searchName t dir base fuel suffix name ≠ .hangs →
      Tracebox.StreamWriter.searchName t dir base more suffix name =
        Tracebox.StreamWriter.searchName t dir base fuel suffix name := by
  induction fuel generalizing more with
  | zero => exact fun h => absurd rfl h
  | succ fuel ih =>
      intro suffix name h
      obtain ⟨more, rfl⟩ : ∃ m, more = m + 1 := ⟨more - 1, by omega⟩
      rw [Tracebox.StreamWriter.searchName] at h ⊢
      rw [Tracebox.StreamWriter.searchName]
      split
      · rfl
      · rfl
      · rename_i htaken
        rw [htaken] at h
        exact ih (Nat.le_of_succ_le_succ hle) h

/-- **The bound of the search does not matter**: the entries of the tree bound it, and so do the
suffixes. -/
lemma freshName_eq (s : StreamWriter) (time_ns : UInt64) (w : World) :
    freshName (World.buffered host held) s time_ns w = s.freshName host time_ns w.tree := by
  rw [freshName, searchName_eq]
  change s.nameLoop host time_ns w.tree (2 ^ 32 + 1) = _
  by_cases hends : s.freshName host time_ns w.tree = .hangs
  · rw [hends]
    exact Tracebox.StreamWriter.freshName_hangs_iff.mp hends _
  by_cases hsuffixes : s.nameLoop host time_ns w.tree (2 ^ 32 + 1) = .hangs
  · -- every name was looked at
    refine absurd (Tracebox.StreamWriter.freshName_hangs_iff.mpr fun rounds => ?_) hends
    refine nameLoop_hangs_iff.mpr fun j _ => ?_
    obtain ⟨i, hi, -, hsame⟩ := exists_candidate (s.fileName host time_ns) j
    rw [hsame]
    exact nameLoop_hangs_iff.mp hsuffixes i (Nat.lt_succ_of_le hi)
  · rcases le_total (w.tree.entries.length + 1) (2 ^ 32 + 1) with hle | hle
    · exact searchName_mono hle hends
    · exact (searchName_mono hle hsuffixes).symm

lemma writeHeader_eq (s : StreamWriter) (stream : FileIo) (time_ns : UInt64) (type : UInt8)
    (w : World) : writeHeader (World.buffered host held) s stream time_ns type w =
      s.writeHeader host stream time_ns type w := by
  rw [writeHeader, Tracebox.StreamWriter.writeHeader, tryAll_eq]
  rfl

lemma reopenData_eq (s : StreamWriter) (file_name : Bytes) (index : FileIo) (time_ns : UInt64)
    (result : ℤ) (w : World) :
    reopenData (World.buffered host held) s file_name index time_ns result w =
      s.reopenData host file_name index time_ns result w := by
  simp only [reopenData, writeHeader_eq, Tracebox.StreamWriter.reopenData]
  rfl

lemma reopenAs_eq (s : StreamWriter) (file_name : Bytes) (time_ns : UInt64) (w : World) :
    reopenAs (World.buffered host held) s file_name time_ns w =
      s.reopenAs host file_name time_ns w := by
  simp only [reopenAs, writeHeader_eq, reopenData_eq, Tracebox.StreamWriter.reopenAs]
  rfl

lemma reopenFile_eq (s : StreamWriter) (time_ns : UInt64) (w : World) :
    reopenFile (World.buffered host held) s time_ns w = s.reopenFile host time_ns w := by
  simp only [reopenFile, freshName_eq, Tracebox.StreamWriter.reopenFile]
  cases Tracebox.StreamWriter.freshName host { s with offset_ := 0 } time_ns w.tree with
  | found file_name => exact reopenAs_eq host held _ file_name time_ns w
  | thrown => rfl
  | hangs => rfl

lemma openFile_eq (s : StreamWriter) (request : LogRequest) (w : World) :
    openFile (World.buffered host held) s request w = s.openFile host request w := by
  rw [openFile, reopenFile_eq, Tracebox.StreamWriter.openFile]

lemma closeFile_eq (s : StreamWriter) (w : World) :
    closeFile (World.buffered host held) s w = s.closeFile host w := rfl

lemma commitRecord_eq (s : StreamWriter) (flush : Bool) (time_ns : UInt64) (data : Bytes)
    (result : ℤ) (w : World) :
    commitRecord (World.buffered host held) s flush time_ns data result w =
      s.commitRecord host flush time_ns data result w := by
  simp only [commitRecord, tryAll_eq, Tracebox.StreamWriter.commitRecord, inject,
    Tracebox.StreamWriter.inject]
  cases hinjector : s.fault_injector_ with
  | false => rfl
  | true =>
      have hwrites : flushIf (World.buffered host held) flush =
          Tracebox.StreamWriter.flushIf host flush := rfl
      have hwrite : ∀ f bytes, (World.buffered host held).write f bytes =
          FileIo.write host f bytes := fun _ _ => rfl
      simp only [hwrites, hwrite]
      generalize Tracebox.tryAll _ w = d
      by_cases hthrows : host.outcome d.2.calls = .throws
      · have hinject : (World.buffered host held).inject d.2 = (false, d.2.called) := by
          simp [World.buffered, World.system, hthrows]
        simp only [if_true, hinject, hthrows, Bool.false_eq_true, not_false_eq_true]
      · have hinject : (World.buffered host held).inject d.2 = (true, d.2.called) := by
          simp [World.buffered, World.system, hthrows]
        simp only [if_true, hinject, hthrows, if_false, not_true_eq_false]

lemma writeFixed_eq (s : StreamWriter) (f : FileIo) (flush : Bool) (time_ns : UInt64)
    (data : Bytes) (w : World) :
    writeFixed (World.buffered host held) s f flush time_ns data w =
      s.writeFixed host f flush time_ns data w := by
  simp only [writeFixed, tryAll_eq, Tracebox.StreamWriter.writeFixed]
  rfl

lemma writeVariable_eq (s : StreamWriter) (flush : Bool) (time_ns : UInt64) (data : Bytes)
    (w : World) : writeVariable (World.buffered host held) s flush time_ns data w =
      s.writeVariable host flush time_ns data w := by
  simp only [writeVariable, closeFile_eq, reopenFile_eq, commitRecord_eq,
    Tracebox.StreamWriter.writeVariable]
  cases Tracebox.StreamWriter.live s.data_ with
  | none => rfl
  | some _ =>
      simp only
      split_ifs
      · rcases Tracebox.StreamWriter.reopenFile host (s.closeFile host w).1 time_ns
          (s.closeFile host w).2 with ⟨_ | _ | _, _, _⟩ <;> rfl
      · rfl

/-- **A stream does the same on both hosts.** -/
lemma write_eq (s : StreamWriter) (time_ns : UInt64) (data : Bytes) (w : World) :
    write (World.buffered host held) s time_ns data w = s.write host time_ns data w := by
  simp only [write, writeFixed_eq, writeVariable_eq, Tracebox.StreamWriter.write]
  cases Tracebox.StreamWriter.live s.index_ with
  | none => rfl
  | some f => rfl

end StreamWriter

namespace Folder

lemma create_eq (f : Folder) (time_ns : UInt64) (w : World) :
    create (World.buffered host held) f time_ns w = f.create host time_ns w := by
  have hcal : (World.buffered host held).host.cal = host.cal := rfl
  have hthere : ∀ p, (World.buffered host held).there p w = some (w.tree.lookup p).isSome :=
    fun p => rfl
  have hmake : ∀ p, (World.buffered host held).create_directories p w =
      Tracebox.Folder.create_directories host p w := fun p => rfl
  cases hlook : w.tree.lookup (f.folder_ ++ [toDec (host.cal.Time2YYYYMMDD time_ns)]) with
  | some n =>
      simp only [create, hcal, hthere, hlook, Tracebox.Folder.create, Option.isSome_some, ne_eq,
        reduceCtorEq, not_false_eq_true, if_true]
  | none =>
      obtain ⟨⟨made, w'⟩, hr⟩ : ∃ r, Tracebox.Folder.create_directories host
        (f.folder_ ++ [toDec (host.cal.Time2YYYYMMDD time_ns)]) w = r := ⟨_, rfl⟩
      rcases made with _ | _ | _ <;>
        simp only [create, hcal, hthere, hlook, hmake, hr, Tracebox.Folder.create,
          Option.isSome_none, ne_eq, not_true_eq_false, if_false]

lemma writeTo_eq (f : Folder) (s : StreamWriter) (request : LogRequest) (w : World) :
    writeTo (World.buffered host held) f s request w = f.writeTo host s request w := by
  rw [writeTo, StreamWriter.write_eq, Tracebox.Folder.writeTo]

lemma writeChannel_eq (f : Folder) (request : LogRequest) (w : World) :
    writeChannel (World.buffered host held) f request w = f.writeChannel host request w := by
  cases hlook : f.files_.lookup request.channel with
  | some s => simp only [writeChannel, hlook, writeTo_eq, Tracebox.Folder.writeChannel]
  | none =>
      obtain ⟨⟨out, s, w'⟩, hr⟩ : ∃ r, Tracebox.StreamWriter.openFile host
        { folder_ := f.folder_ } request w = r := ⟨_, rfl⟩
      cases out <;>
        simp only [writeChannel, hlook, writeTo_eq, StreamWriter.openFile_eq, hr,
          Tracebox.Folder.writeChannel]

lemma write_eq (f : Folder) (request : LogRequest) (w : World) :
    write (World.buffered host held) f request w = f.write host request w := by
  by_cases hday : f.yyyymmdd_ = 0
  · obtain ⟨⟨made, f', w'⟩, hr⟩ : ∃ r, Tracebox.Folder.create host f
      request.time_ns w = r :=
      ⟨_, rfl⟩
    rcases made with _ | _ | _ <;>
      simp only [write, hday, if_true, create_eq, hr, writeChannel_eq, Tracebox.Folder.write]
  · simp only [write, hday, if_false, writeChannel_eq, Tracebox.Folder.write]

end Folder

/-- **The backend does the same on both hosts.** -/
lemma backend_write_eq (b : FilesystemStorageBackend) (request : LogRequest) (w : World) :
    Backend.write (World.buffered host held) b request w = b.write host request w := by
  simp only [Backend.write, Folder.write_eq, FilesystemStorageBackend.write]
  rfl

lemma writeToBackend_eq (st : Tracebox.Storage) (available : ℕ)
    (request : LogRequest) (w : World) :
    Storage.writeToBackend (World.buffered host held) st available request w =
      st.writeToBackend host available request w := by
  obtain ⟨⟨out, b, w'⟩, hr⟩ : ∃ r, st.backend_.write host request w = r := ⟨_, rfl⟩
  cases out <;>
    simp only [Storage.writeToBackend, backend_write_eq, hr, Tracebox.Storage.writeToBackend]

/-! ## Retention -/

/-- What `file_size` says of the files directly inside a directory. -/
def dirSize (held : World → ℕ → ℕ) (w : World) (dir : Path) : ℕ :=
  ((w.tree.children dir).map fun e => e.2.weigh fun i => (w.content i).length - held w i).sum

/-- What a list of entries with their nodes comes to. -/
lemma entries_eq {dir : Path} {w : World} {l : List (Bytes × Node)}
    (h : ∀ e ∈ l, w.tree.lookup (dir ++ [e.1]) = some e.2) :
    directories (World.buffered host held) dir w (l.map Prod.fst) =
        some (l.filterMap fun e => match e.2 with
          | .dir => some e.1
          | .file _ => none) ∧
      sizesOf (World.buffered host held) dir w (l.map Prod.fst) =
        some (l.map fun e => e.2.weigh fun i => (w.content i).length - held w i).sum ∧
      countedBytes (World.buffered host held) dir w (l.map Prod.fst) =
        (l.map fun e => e.2.weigh fun i => (w.content i).length - held w i).sum := by
  induction l with
  | nil => exact ⟨rfl, rfl, rfl⟩
  | cons e l ih =>
      obtain ⟨hdirs, hsizes, hcounted⟩ := ih fun e' he' => h e' (List.mem_cons_of_mem _ he')
      have hlook := h e List.mem_cons_self
      obtain ⟨name, node⟩ := e
      cases node with
      | dir =>
          have htype : (World.buffered host held).is_directory dir name w = some true := by
            change some (decide (w.tree.lookup (dir ++ [name]) = some .dir)) = _
            rw [hlook]
            rfl
          simp only [List.map_cons, directories, sizesOf, countedBytes, htype, hdirs, hsizes,
            hcounted, Option.map_some, List.filterMap_cons, Node.weigh, List.sum_cons, Nat.zero_add,
            and_self]
      | file i =>
          have htype : (World.buffered host held).is_directory dir name w = some false := by
            change some (decide (w.tree.lookup (dir ++ [name]) = some .dir)) = _
            rw [hlook]
            rfl
          have hsize : (World.buffered host held).file_size dir name w =
              some ((w.content i).length - held w i) := by
            change (match w.tree.lookup (dir ++ [name]) with
              | some (.file inode) => some ((w.content inode).length - held w inode)
              | _ => none) = _
            rw [hlook]
          simp only [List.map_cons, directories, sizesOf, countedBytes, htype, hsize, hdirs, hsizes,
            hcounted, Option.map_some, List.filterMap_cons, Node.weigh, List.sum_cons, and_self]

lemma children_eq (w : World) (dir : Path) :
    ∀ e ∈ w.tree.children dir, w.tree.lookup (dir ++ [e.1]) = some e.2 :=
  fun _ he => Tree.mem_children.mp he

lemma dayDirs_eq (b : FilesystemStorageBackend) (w : World) :
    Backend.dayDirs (World.buffered host held) b w =
      if w.tree.lookup b.folder_path_ = some .dir then some (b.dayDirs w) else none := by
  have hlist : (World.buffered host held).list b.folder_path_ w =
      if w.tree.lookup b.folder_path_ = some .dir then
        some ((w.tree.children b.folder_path_).map Prod.fst) else none := rfl
  rw [Backend.dayDirs, hlist]
  split_ifs
  · exact (entries_eq host held (children_eq w b.folder_path_)).1
  · rfl

lemma deleteFolder_eq (b : FilesystemStorageBackend) (folder : Bytes) (w : World) :
    Backend.deleteFolder (World.buffered host held) b folder w =
      if w.tree.lookup (b.folder_path_ ++ [folder]) = some .dir then
        (some (dirSize held w (b.folder_path_ ++ [folder])),
          w.remove_all (b.folder_path_ ++ [folder])) else (none, w) := by
  have hlist : (World.buffered host held).list (b.folder_path_ ++ [folder]) w =
      if w.tree.lookup (b.folder_path_ ++ [folder]) = some .dir then
        some ((w.tree.children (b.folder_path_ ++ [folder])).map Prod.fst) else none := rfl
  have hremove : (World.buffered host held).remove_all (b.folder_path_ ++ [folder]) w =
      (true, w.remove_all (b.folder_path_ ++ [folder])) := rfl
  simp only [Backend.deleteFolder, hlist, hremove]
  split_ifs
  · rw [Option.bind_some, (entries_eq host held (children_eq w (b.folder_path_ ++ [folder]))).2.1]
    rfl
  · rfl

lemma findOldest_eq (b : FilesystemStorageBackend) (w : World) :
    Backend.findOldest (World.buffered host held) b w =
      if w.tree.lookup b.folder_path_ = some .dir then some (b.findOldest w) else none := by
  rw [Backend.findOldest, dayDirs_eq]
  split_ifs
  · rfl
  · rfl

/-! ### When sizes do not lag behind -/

lemma dirSize_zero (w : World) (dir : Path) :
    dirSize (fun _ _ => 0) w dir = FilesystemStorageBackend.dirBytes w dir := by
  rw [dirBytes_eq_weigh]
  rfl

lemma removeOldest_eq (b : FilesystemStorageBackend) (w : World) :
    Backend.removeOldest (World.system host) b w = match b.removeOldest w with
      | none => (none, w)
      | some (removed, freed, w') => (some (removed, freed), w') := by
  have hfind : Backend.findOldest (World.system host) b w =
      if w.tree.lookup b.folder_path_ = some .dir then some (b.findOldest w) else none :=
    findOldest_eq host (fun _ _ => 0) b w
  have hdelete : ∀ folder, Backend.deleteFolder (World.system host) b folder w =
      if w.tree.lookup (b.folder_path_ ++ [folder]) = some .dir then
        (some (FilesystemStorageBackend.dirBytes w (b.folder_path_ ++ [folder])),
          w.remove_all (b.folder_path_ ++ [folder])) else (none, w) := fun folder => by
    rw [← dirSize_zero]
    exact deleteFolder_eq host (fun _ _ => 0) b folder w
  simp only [Backend.removeOldest, hfind, hdelete, FilesystemStorageBackend.removeOldest,
    FilesystemStorageBackend.deleteFolder]
  by_cases hroot : w.tree.lookup b.folder_path_ = some .dir
  · by_cases hmax : b.findOldest w = FilesystemStorageBackend.kMaxDay
    · simp [hroot, hmax]
    · by_cases hdir : w.tree.lookup (b.folder_path_ ++ [to_string (b.findOldest w)]) = some .dir
      · simp [hroot, hmax, hdir]
      · simp [hroot, hmax, hdir]
  · simp [hroot]

/-- How a loop ends, on either host. -/
def roomOf : Tracebox.Storage.Room → Storage.Room World
  | .done available w => .done available w
  | .full available w => .full available w
  | .thrown available w => .thrown available w
  | .hangs => .hangs

lemma makeRoom_eq (b : FilesystemStorageBackend) (need fuel : ℕ) :
    ∀ (available : ℕ) (w : World),
    Storage.makeRoom (World.system host) b need fuel available w =
      roomOf (Tracebox.Storage.makeRoom b need fuel available w) := by
  induction fuel with
  | zero => intro available w; rfl
  | succ fuel ih =>
      intro available w
      rw [Storage.makeRoom, Tracebox.Storage.makeRoom, removeOldest_eq]
      split_ifs
      · rfl
      · rcases b.removeOldest w with _ | ⟨_ | _, freed, w'⟩
        · rfl
        · rfl
        · exact ih _ _

/-- **The storage does the same on both hosts.** -/
theorem storage_write_eq (st : Tracebox.Storage) (request : LogRequest) (w : World) :
    Storage.write (World.system host) st request w = st.write host request w := by
  rw [Storage.write, Tracebox.Storage.write, makeRoom_eq]
  change Storage.afterLoop (World.system host) st request w (roomOf (Tracebox.Storage.makeRoom
    st.backend_ (maxRecordSize request.data.length) (w.tree.entries.length + 1)
    st.available_bytes_ w)) = _
  cases Tracebox.Storage.makeRoom st.backend_ (maxRecordSize request.data.length)
    (w.tree.entries.length + 1) st.available_bytes_ w with
  | done available w' => exact writeToBackend_eq host (fun _ _ => 0) st available request w'
  | full available w' => rfl
  | thrown available w' => rfl
  | hangs => rfl

end System

end Tracebox
