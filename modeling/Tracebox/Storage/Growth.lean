import Tracebox.Writer.Storage

/-!
# What the storage path never undoes

Everything below `Storage` only creates files and directories and appends to files: names stay,
contents get longer, whatever fails on the way.  The one exception is the eviction of whole day
directories, which `Evicts` describes.

* `backend_write_reaches`, `backend_write_grows` — what writing does, and that it **destroys
  nothing**.
* `makeRoom_evicts` — **eviction removes oldest days first**, each only while the bytes freed so
  far are not enough.
* `write_keeps_unevicted` — **a write, also a refused one, leaves everything outside the evicted
  days in place**.
* `refused_write_evicts` — a record that exceeds the whole budget evicts the stored day before it
  is refused.
-/

namespace Tracebox

open Bytes

variable (host : Host) (D : Path → Prop)

/-! ## Writing -/

namespace StreamWriter

/-- Calls that each only add. -/
lemma tryAll_reaches {calls : List (World → Bool × World)}
    (h : ∀ call ∈ calls, ∀ w : World, w.Reaches D (call w).2) (w : World) :
    w.Reaches D (tryAll calls w).2 := by
  induction calls generalizing w with
  | nil => exact World.Reaches.refl w
  | cons call calls ih =>
      have hone := h call List.mem_cons_self w
      rw [tryAll]
      split_ifs
      · exact hone.trans (ih (fun c hc => h c (List.mem_cons_of_mem _ hc)) _)
      · exact hone

/-- Appends to a file, then a flush when one is due. -/
lemma tryAll_blocks_reaches (f : FileIo) (flush : Bool) (blocks : List Bytes) (w : World) :
    w.Reaches D (tryAll (blocks.map (f.write host) ++ flushIf host flush f) w).2 := by
  refine tryAll_reaches D (fun call hcall w => ?_) w
  rcases List.mem_append.mp hcall with hc | hc
  · obtain ⟨b, -, rfl⟩ := List.mem_map.mp hc
    exact FileIo.reaches_write f b w
  · unfold flushIf at hc
    split_ifs at hc
    · rw [List.mem_singleton.mp hc]
      exact FileIo.reaches_flush f w
    · simp at hc

lemma writeHeader_reaches (s : StreamWriter) (f : FileIo) (time_ns : UInt64) (type : UInt8)
    (w : World) : w.Reaches D (s.writeHeader host f time_ns type w).2 := by
  have hall := tryAll_blocks_reaches host D f true [(s.header time_ns type).encode] w
  unfold writeHeader
  split_ifs with hopen
  · change w.Reaches D
      (if (tryAll (([(s.header time_ns type).encode] : List Bytes).map (f.write host) ++
        flushIf host true f) w).1 = true then _ else _ : ℤ × World).2
    split_ifs
    · exact hall
    · exact hall
  · exact World.Reaches.refl w

lemma reopenData_reaches (s : StreamWriter) (file_name : Bytes) (index : FileIo) (time_ns : UInt64)
    (result : ℤ) (w : World) :
    w.Reaches D (s.reopenData host file_name index time_ns result w).2.2 := by
  have hopen : w.Reaches D (FileIo.open_ host s.folder_ (file_name ++ dotData) w).2 :=
    FileIo.reaches_open s.folder_ (file_name ++ dotData) w
  have hhead := hopen.trans (s.writeHeader_reaches host D
    (FileIo.open_ host s.folder_ (file_name ++ dotData) w).1 time_ns kDataFile _)
  by_cases ho : (FileIo.open_ host s.folder_ (file_name ++ dotData) w).1.is_open = true
  · simp only [reopenData, ho, if_true]
    split
    · exact hhead
    · exact hhead.trans (.now host _)
  · simp only [reopenData, ho, if_false, Bool.false_eq_true]
    split
    · exact hopen
    · exact hopen.trans (.now host _)

lemma reopenFile_reaches (s : StreamWriter) (time_ns : UInt64) (w : World) :
    w.Reaches D (s.reopenFile host time_ns w).2.2 := by
  simp only [reopenFile]
  split
  · exact World.Reaches.refl w
  · exact World.Reaches.refl w
  · rename_i file_name _
    have hopen : w.Reaches D (FileIo.open_ host s.folder_ (file_name ++ dotIdx) w).2 :=
      FileIo.reaches_open s.folder_ (file_name ++ dotIdx) w
    simp only [reopenAs]
    split
    · exact hopen
    · have hhead := hopen.trans (writeHeader_reaches host D { s with
        offset_ := 0, index_ := some (FileIo.open_ host s.folder_ (file_name ++ dotIdx) w).1 }
        (FileIo.open_ host s.folder_ (file_name ++ dotIdx) w).1 time_ns kIndexFile _)
      split
      · exact hhead
      · split
        · exact hhead.trans (reopenData_reaches host D _ _ _ _ _ _)
        · exact hhead.trans (.now host _)

lemma closeHandle_reaches (h : Option FileIo) (w : World) :
    w.Reaches D (closeHandle host h w).2 := by
  unfold closeHandle
  split
  · exact FileIo.reaches_flush _ w
  · exact World.Reaches.refl w

lemma closeFile_reaches (s : StreamWriter) (w : World) : w.Reaches D (s.closeFile host w).2 :=
  (closeHandle_reaches host D s.index_ w).trans (closeHandle_reaches host D s.data_ _)

lemma inject_reaches {s : StreamWriter} {w w' : World} (h : s.inject host w = some w') :
    w.Reaches D w' := by
  unfold inject at h
  split_ifs at h
  · cases h
    exact World.Reaches.called w
  · cases h
    exact World.Reaches.refl w

lemma commitRecord_reaches (s : StreamWriter) (flush : Bool) (time_ns : UInt64) (data : Bytes)
    (result : ℤ) (w : World) :
    w.Reaches D (s.commitRecord host flush time_ns data result w).2.2 := by
  have hdata := tryAll_blocks_reaches host D (s.data_.getD .unopened) flush
    [toLE 8 time_ns.toNat, toLE 4 (UInt32.ofNat data.length).toNat,
      data.take (UInt32.ofNat data.length).toNat] w
  have hindex := fun w₁ : World => tryAll_blocks_reaches host D
    (s.index_.getD .unopened) flush [toLE 8 time_ns.toNat, toLE 4 s.offset_.toNat] w₁
  simp only [commitRecord]
  split
  · exact hdata
  · split
    · exact hdata.trans (.called _)
    · rename_i w₁ hinj
      have hmid := hdata.trans (inject_reaches host D hinj)
      split
      · exact hmid.trans (hindex w₁)
      · exact hmid.trans (hindex w₁)

lemma writeFixed_reaches (s : StreamWriter) (f : FileIo) (flush : Bool) (time_ns : UInt64)
    (data : Bytes) (w : World) : w.Reaches D (s.writeFixed host f flush time_ns data w).2.2 := by
  have hall := tryAll_blocks_reaches host D f flush [toLE 8 time_ns.toNat, data] w
  simp only [writeFixed]
  split
  · split
    · exact hall
    · exact hall
  · exact World.Reaches.refl w

lemma writeVariable_reaches (s : StreamWriter) (flush : Bool) (time_ns : UInt64) (data : Bytes)
    (w : World) : w.Reaches D (s.writeVariable host flush time_ns data w).2.2 := by
  simp only [writeVariable]
  split
  · exact World.Reaches.refl w
  · split
    · have hre := (s.closeFile_reaches host D w).trans
        (reopenFile_reaches host D (s.closeFile host w).1 time_ns (s.closeFile host w).2)
      split
      · rename_i ret s₁ w₁ heq
        rw [heq] at hre
        split
        · exact hre
        · exact hre.trans (s₁.commitRecord_reaches host D flush time_ns data ret w₁)
      · exact hre
    · exact s.commitRecord_reaches host D flush time_ns data 0 w

lemma write_reaches (s : StreamWriter) (time_ns : UInt64) (data : Bytes) (w : World) :
    w.Reaches D (s.write host time_ns data w).2.2 := by
  have hnow : w.Reaches D (w.now host).2 := .now host w
  simp only [write]
  split
  · exact World.Reaches.refl w
  · split
    · exact hnow.trans (s.writeFixed_reaches host D _ _ _ _ _)
    · exact hnow.trans (s.writeVariable_reaches host D _ _ _ _)

end StreamWriter

namespace Folder

lemma create_reaches (f : Folder) (time_ns : UInt64) (w : World)
    (hD : D (f.folder_ ++ [toDec (host.cal.Time2YYYYMMDD time_ns)])) :
    w.Reaches D (f.create host time_ns w).2.2 := by
  have hmk : w.Reaches D (create_directories host
      (f.folder_ ++ [toDec (host.cal.Time2YYYYMMDD time_ns)]) w).2 := by
    unfold create_directories
    split
    · split_ifs
      · exact World.Reaches.called w
      · exact (World.Reaches.mkdirs w hD).trans (.called _)
    · exact World.Reaches.called w
    · exact World.Reaches.called w
  simp only [create]
  split
  · exact World.Reaches.refl w
  · split <;> exact hmk

lemma writeTo_reaches (f : Folder) (s : StreamWriter) (request : LogRequest) (w : World) :
    w.Reaches D (f.writeTo host s request w).2.2 :=
  s.write_reaches host D request.time_ns request.data w

lemma writeChannel_reaches (f : Folder) (request : LogRequest) (w : World) :
    w.Reaches D (f.writeChannel host request w).2.2 := by
  simp only [writeChannel]
  split
  · exact f.writeTo_reaches host D _ request w
  · have hopen := StreamWriter.reopenFile_reaches host D
      { folder_ := f.folder_, name_ := request.channel, record_size_ := request.size }
      request.time_ns w
    split
    · split
      · exact hopen
      · exact hopen.trans (writeTo_reaches host D _ _ _ _)
    · exact hopen

lemma write_reaches (f : Folder) (request : LogRequest) (w : World)
    (hD : f.yyyymmdd_ = 0 → D (f.folder_ ++ [toDec (host.cal.Time2YYYYMMDD request.time_ns)])) :
    w.Reaches D (f.write host request w).2.2 := by
  simp only [write]
  split
  · rename_i hday
    have hc := f.create_reaches host D request.time_ns w (hD hday)
    split
    · exact hc
    · exact hc
    · exact hc.trans (writeChannel_reaches host D _ _ _)
  · exact f.writeChannel_reaches host D request w

lemma close_reaches (f : Folder) (w : World) : w.Reaches D (f.close host w) := by
  unfold close
  induction f.files_ generalizing w with
  | nil => exact World.Reaches.refl w
  | cons e es ih => exact (e.2.closeFile_reaches host D w).trans (ih _)

end Folder

/-- **Writing to the backend** makes no directory but the day directory of the request. -/
theorem backend_write_reaches (b : FilesystemStorageBackend) (request : LogRequest) (w : World)
    (hD : D (b.folder_path_ ++ [toDec (host.cal.Time2YYYYMMDD request.time_ns)])) :
    w.Reaches D (b.write host request w).2.2 := by
  simp only [FilesystemStorageBackend.write]
  split
  · rename_i hsame
    refine b.folder_.write_reaches host D request w fun hzero => ?_
    have hday := (host.cal.day_bounds request.time_ns).1
    simp only [Folder.sameDay, decide_eq_true_eq] at hsame
    omega
  · exact (b.folder_.close_reaches host D w).trans
      (Folder.write_reaches host D _ request _ fun _ => hD)

variable {D} in
/-- **No file gets a second name**, whichever of them one asks about. -/
lemma World.Reaches.one_name {S : Path → ℕ → Prop} {w w' : World} (h : w.Reaches D w')
    (hs : ∀ p q i, S p i → w.tree.lookup p = some (.file i) →
      w.tree.lookup q = some (.file i) → q = p) :
    ∀ p q i, S p i → w'.tree.lookup p = some (.file i) → w'.tree.lookup q = some (.file i) →
      q = p := by
  induction h with
  | refl w => exact hs
  | called w => exact hs
  | now host w => exact hs
  | record w e => simpa only [World.tree_record] using hs
  | create w p =>
      cases hp : w.tree.lookup p with
      | some m => simpa only [World.tree_create, Tree.add_of_some _ hp] using hs
      | none =>
          -- the new file has an inode of its own
          have hnew : ∀ q i, (w.create p).tree.lookup q = some (.file i) →
              (q = p ∧ i = w.inodes) ∨ (w.tree.lookup q = some (.file i) ∧ i < w.inodes) := by
            intro q i hq
            rw [World.tree_create, Tree.lookup_add _ hp] at hq
            split_ifs at hq with heq
            · exact Or.inl ⟨heq, (Node.file.inj (Option.some.inj hq)).symm⟩
            · exact Or.inr ⟨hq, w.linked q i hq⟩
          intro q r i hS hq hr
          rcases hnew q i hq with ⟨rfl, hqi⟩ | ⟨hq, hqi⟩
          · rcases hnew r i hr with ⟨rfl, -⟩ | ⟨-, hri⟩
            · rfl
            · omega
          · rcases hnew r i hr with ⟨-, hri⟩ | ⟨hr, -⟩
            · omega
            · exact hs q r i hS hq hr
  | mkdirs w hD =>
      intro q r i hS hq hr
      exact hs q r i hS (World.lookup_mkdirsRev_file _ hq) (World.lookup_mkdirsRev_file _ hr)
  | trans _ _ ih₁ ih₂ => exact ih₂ (ih₁ hs)

/-- **Writing destroys nothing**, whatever comes of it. -/
theorem backend_write_grows (b : FilesystemStorageBackend) (request : LogRequest) (w : World) :
    w.Grows (b.write host request w).2.2 :=
  (backend_write_reaches host (fun _ => True) b request w trivial).grows

/-! ## Eviction -/

variable {host}

open FilesystemStorageBackend Storage

/-- Day directories are deleted to make room for `need` bytes: each time the directory with the
smallest number, and only while the bytes available so far are not enough. -/
inductive Evicts (b : FilesystemStorageBackend) (need : ℕ) :
    ℕ → World → List Bytes → ℕ → World → Prop where
  | stop (available : ℕ) (w : World) : Evicts b need available w [] available w
  | evict {available available' freed : ℕ} {w w₁ w' : World} {names : List Bytes}
      (hneed : available < need) (hday : b.findOldest w ≠ kMaxDay)
      (hdelete : b.deleteFolder (to_string (b.findOldest w)) w = some (freed, w₁))
      (hrest : Evicts b need ((available + freed) % 2 ^ 64) w₁ names available' w') :
      Evicts b need available w (to_string (b.findOldest w) :: names) available' w'

/-- How the loop of `Storage::write` ends, and what it has deleted then. -/
lemma makeRoom_evicts (b : FilesystemStorageBackend) (need fuel available : ℕ) (w : World) :
    (∀ {available' w'}, makeRoom b need fuel available w = .done available' w' →
      need ≤ available' ∧ ∃ names, Evicts b need available w names available' w') ∧
    (∀ {available' w'}, makeRoom b need fuel available w = .full available' w' →
      b.findOldest w' = kMaxDay ∧ ∃ names, Evicts b need available w names available' w') ∧
    (∀ {available' w'}, makeRoom b need fuel available w = .thrown available' w' →
      ∃ names, Evicts b need available w names available' w') := by
  induction fuel generalizing available w with
  | zero => simp [makeRoom]
  | succ fuel ih =>
      rw [makeRoom]
      by_cases hneed : need ≤ available
      · rw [if_pos hneed]
        refine ⟨fun h => ?_, fun h => (by cases h), fun h => (by cases h)⟩
        cases h
        exact ⟨hneed, [], .stop _ _⟩
      · rw [if_neg hneed]
        unfold removeOldest
        by_cases hroot : w.tree.lookup b.folder_path_ ≠ some .dir
        · rw [if_pos hroot]
          refine ⟨fun h => (by cases h), fun h => (by cases h), fun h => ?_⟩
          cases h
          exact ⟨[], .stop _ _⟩
        · rw [if_neg hroot]
          by_cases hday : b.findOldest w = kMaxDay
          · rw [if_pos hday]
            refine ⟨fun h => (by cases h), fun h => ?_, fun h => (by cases h)⟩
            cases h
            exact ⟨hday, [], .stop _ _⟩
          · rw [if_neg hday]
            cases hdel : b.deleteFolder (to_string (b.findOldest w)) w with
            | none =>
                refine ⟨fun h => (by cases h), fun h => (by cases h), fun h => ?_⟩
                cases h
                exact ⟨[], .stop _ _⟩
            | some r =>
                obtain ⟨freed, w₁⟩ := r
                obtain ⟨hd, hf, ht⟩ := ih ((available + freed) % 2 ^ 64) w₁
                have hstep : ∀ {names available' w'},
                    Evicts b need ((available + freed) % 2 ^ 64) w₁ names available' w' →
                    ∃ names, Evicts b need available w names available' w' := fun he =>
                  ⟨_, .evict (not_le.mp hneed) hday hdel he⟩
                refine ⟨fun h => ?_, fun h => ?_, fun h => ?_⟩
                · obtain ⟨h1, names, he⟩ := hd h
                  exact ⟨h1, hstep he⟩
                · obtain ⟨h1, names, he⟩ := hf h
                  exact ⟨h1, hstep he⟩
                · obtain ⟨names, he⟩ := ht h
                  exact hstep he

/-- Eviction touches nothing outside the directories it deletes, and no file content. -/
lemma Evicts.keeps {b : FilesystemStorageBackend} {need available available' : ℕ} {w w' : World}
    {names : List Bytes} (h : Evicts b need available w names available' w') :
    w'.tape = w.tape ∧ ∀ p, (∀ name ∈ names, ¬ b.folder_path_ ++ [name] <+: p) →
      w'.tree.lookup p = w.tree.lookup p := by
  induction h with
  | stop => exact ⟨rfl, fun _ _ => rfl⟩
  | evict hneed hday hdelete hrest ih =>
      obtain ⟨-, -, rfl⟩ := deleteFolder_eq_some hdelete
      refine ⟨ih.1, fun p hp => ?_⟩
      rw [ih.2 p fun name hname => hp name (List.mem_cons_of_mem _ hname), World.tree_remove_all,
        Tree.lookup_remove_all, if_neg (hp _ List.mem_cons_self)]

/-- Nothing is evicted when the bytes are there. -/
lemma Evicts.eq_nil {b : FilesystemStorageBackend} {need available available' : ℕ} {w w' : World}
    {names : List Bytes} (h : Evicts b need available w names available' w')
    (hneed : need ≤ available) : names = [] := by
  cases h with
  | stop => rfl
  | evict hlt => exact absurd hneed (not_le.mpr hlt)

/-- Eviction and then growth: everything outside the deleted directories is still there. -/
lemma Evicts.keeps_grows {b : FilesystemStorageBackend} {need available available' : ℕ}
    {w w₁ w' : World} {names : List Bytes} (h : Evicts b need available w names available' w₁)
    (hg : w₁.Grows w') {p : Path} {node : Node} (hp : w.tree.lookup p = some node)
    (hout : ∀ name ∈ names, ¬ b.folder_path_ ++ [name] <+: p) :
    w'.tree.lookup p = some node ∧ ∀ i, node = .file i → w.content i <+: w'.content i := by
  obtain ⟨htape, htree⟩ := h.keeps
  refine ⟨hg.lookup p node (by rw [htree p hout, hp]), fun i _ => ?_⟩
  have hc := hg.content i
  rwa [World.content, htape] at hc

/-- Bookkeeping does not touch the files. -/
lemma world_writeToBackend (host : Host) (st : Storage) (available : ℕ)
    (request : LogRequest) (w : World) :
    (st.writeToBackend host available request w).2.2 = (st.backend_.write host request w).2.2 := by
  simp only [writeToBackend]
  split <;> rfl

/-- What has happened when `Storage::write` returns: room was made, and the rest only grows. -/
lemma write_evicts {st st' : Storage} {request : LogRequest} {w w' : World} {v : ℤ}
    (h : st.write host request w = (.ret v, st', w')) : ∃ names available w₁,
      Evicts st.backend_ (maxRecordSize request.data.length) st.available_bytes_ w names
        available w₁ ∧ w₁.Grows w' := by
  obtain ⟨hdone, hfull, -⟩ := makeRoom_evicts st.backend_ (maxRecordSize request.data.length)
    (w.tree.entries.length + 1) st.available_bytes_ w
  rw [Storage.write] at h
  generalize makeRoom st.backend_ (maxRecordSize request.data.length)
    (w.tree.entries.length + 1) st.available_bytes_ w = room at h hdone hfull
  cases room with
  | done available w₁ =>
      obtain ⟨-, names, he⟩ := hdone rfl
      have hg := backend_write_grows host st.backend_ request w₁
      have hw := world_writeToBackend host st available request w₁
      rw [afterLoop] at h
      rw [h] at hw
      refine ⟨names, available, w₁, he, ?_⟩
      rwa [← hw] at hg
  | full available w₁ =>
      obtain ⟨-, names, he⟩ := hfull rfl
      simp only [afterLoop, Prod.mk.injEq] at h
      obtain ⟨-, -, rfl⟩ := h
      exact ⟨names, available, w₁, he, World.Grows.refl w₁⟩
  | thrown available w₁ => simp [afterLoop] at h
  | hangs => simp [afterLoop] at h

/-- **A write destroys nothing but evicted days.**  Whatever the storage, the host and the request,
and whatever value `Storage::write` returns, `0` and negative values among them: the day directories
that were evicted were taken oldest first and only while the estimate exceeded the bytes available,
and every other directory and file is still there, a file with at most some bytes appended. -/
theorem write_keeps_unevicted {st st' : Storage} {request : LogRequest} {w w' : World} {v : ℤ}
    (h : st.write host request w = (.ret v, st', w')) :
    ∃ evicted available w₁,
      Evicts st.backend_ (maxRecordSize request.data.length) st.available_bytes_ w evicted
        available w₁ ∧
      (maxRecordSize request.data.length ≤ st.available_bytes_ → evicted = []) ∧
      ∀ p node, w.tree.lookup p = some node →
        (∀ name ∈ evicted, ¬ st.backend_.folder_path_ ++ [name] <+: p) →
          w'.tree.lookup p = some node ∧ ∀ i, node = .file i →
            w.content i <+: w'.content i := by
  obtain ⟨names, available, w₁, he, hg⟩ := write_evicts h
  exact ⟨names, available, w₁, he, he.eq_nil, fun p node hp hout => he.keeps_grows hg hp hout⟩

/-- A budget of two hundred bytes with one small record stored. -/
def smallStorage : Option (List Outcome × Storage × World) :=
  (Storage.make [ascii "r"] 200 (.bare [ascii "r"])).map fun x => x.1.run .january
    [{ channel := ascii "a", size := 1, data := [7], time_ns := 1704067200000000000 }] x.2

/-- A record that does not have the size its channel announced. -/
def shortRequest : LogRequest :=
  { channel := ascii "a", size := 1, data := [], time_ns := 1704067200000000000 }

/-- The write is refused, and the records of the day stay. -/
theorem write_keeps_unevicted_refused : ∃ outcomes st w st' w',
    smallStorage = some (outcomes, st, w) ∧
      st.write .january shortRequest w = (.ret (-EINVAL), st', w') ∧
      ∃ evicted available w₁,
        Evicts st.backend_ (maxRecordSize shortRequest.data.length) st.available_bytes_ w evicted
          available w₁ ∧
        (maxRecordSize shortRequest.data.length ≤ st.available_bytes_ → evicted = []) ∧
        ∀ p node, w.tree.lookup p = some node →
          (∀ name ∈ evicted, ¬ st.backend_.folder_path_ ++ [name] <+: p) →
            w'.tree.lookup p = some node ∧
              ∀ i, node = .file i → w.content i <+: w'.content i := by
  have hsome : smallStorage.isSome = true := by decide +kernel
  obtain ⟨⟨outcomes, st, w⟩, hs⟩ := Option.isSome_iff_exists.mp hsome
  have hret : (smallStorage.map fun x => (x.2.1.write .january shortRequest x.2.2).1) =
      some (.ret (-EINVAL)) := by decide +kernel
  rw [hs, Option.map_some, Option.some.injEq] at hret
  obtain ⟨⟨out, st', w'⟩, hw⟩ : ∃ x, x = st.write .january shortRequest w := ⟨_, rfl⟩
  rw [← hw] at hret
  obtain rfl : out = .ret (-EINVAL) := hret
  exact ⟨outcomes, st, w, st', w', hs, hw.symm, write_keeps_unevicted hw.symm⟩

/-- The stored day is deleted to make room for a record of three hundred bytes, and then the record
is refused all the same. -/
theorem refused_write_evicts :
    (smallStorage.map fun x => (x.2.2.tree.lookup [ascii "r", ascii "20240101"]).isSome) =
      some true ∧
    (smallStorage.map fun x => (x.2.1.write .january
      { channel := ascii "a", size := 0, data := List.replicate 300 7,
        time_ns := 1704067201000000000 } x.2.2).1) = some (.ret 0) ∧
    (smallStorage.map fun x => ((x.2.1.write .january
      { channel := ascii "a", size := 0, data := List.replicate 300 7,
        time_ns := 1704067201000000000 } x.2.2).2.2.tree.lookup
          [ascii "r", ascii "20240101"]).isSome) = some false := by
  refine ⟨by decide +kernel, by decide +kernel, by decide +kernel⟩

end Tracebox
