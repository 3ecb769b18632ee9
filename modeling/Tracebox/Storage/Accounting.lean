import Tracebox.Storage.Budget
import Tracebox.Storage.Confinement
import Tracebox.Storage.Growth
import Tracebox.Stream.Reliable

/-!
# The budget and the bytes on disk

`Storage` counts with what its backend reports, and a stream reports what it appends.  In between,
`Folder::write` asks a new stream to open its files and then overwrites the number that came back
with that of the record: **the headers of a new stream are on disk and nowhere in the budget.**

* `length_le_usedBytes` — what is appended to linked files is on disk.
* `OpensStream` — the call opens the files of a stream.
* `Untouched`, `write_untouched` — a call that opens no files leaves budget and disk alone.
* `write_exceeds` — a call that opens files leaves more on disk than it takes off the budget.
* `budget_exact_iff` — **the budget is exact along a run exactly as long as no call opens files.**
-/

namespace Tracebox

open Bytes FilesystemStorageBackend

/-! ## Bytes on disk -/

/-- What a node of the tree counts for when a file counts for `weight`. -/
def Node.weigh (weight : ℕ → ℕ) : Node → ℕ
  | .dir => 0
  | .file inode => weight inode

lemma dirBytes_eq_weigh (w : World) (dir : Path) :
    dirBytes w dir =
      ((w.tree.children dir).map fun c => c.2.weigh fun i => (w.content i).length).sum := rfl

/-- Every byte of a tape is in one of the files a directory lists. -/
lemma length_le_sum_project (nodes : List (Bytes × Node)) : ∀ {t : List (ℕ × UInt8)},
    (∀ e ∈ t, ∃ name, (name, Node.file e.1) ∈ nodes) →
      t.length ≤ (nodes.map fun c => c.2.weigh fun i => (Tape.project i t).length).sum := by
  intro t
  induction t with
  | nil => simp
  | cons e t ih =>
      intro h
      obtain ⟨name, hname⟩ := h e List.mem_cons_self
      have hrest := ih fun e he => h e (List.mem_cons_of_mem _ he)
      have hsplit : ∀ c : Bytes × Node, (c.2.weigh fun i => (Tape.project i (e :: t)).length) =
          (c.2.weigh fun i => (Tape.project i t).length) + if c.2 = .file e.1 then 1 else 0 := by
        rintro ⟨c, _ | i⟩
        · simp [Node.weigh]
        · by_cases hi : e.1 = i
          · simp [Node.weigh, Tape.project, hi]
          · have hi' : ¬ i = e.1 := fun h => hi h.symm
            simp [Node.weigh, Tape.project, hi, hi']
      have hone : 1 ≤ (nodes.map fun c => if c.2 = Node.file e.1 then 1 else 0).sum :=
        List.single_le_sum (by simp) _ (List.mem_map.mpr ⟨_, hname, by simp⟩)
      simp only [hsplit, List.sum_map_add, List.length_cons]
      exact Nat.add_le_add hrest hone

/-- What is appended to files of a day is on disk. -/
lemma length_le_usedBytes {b : FilesystemStorageBackend} {w w' : World} {name : Bytes}
    {t : List (ℕ × UInt8)} (hdir : w'.tree.lookup (b.folder_path_ ++ [name]) = some .dir)
    (ht : w'.tape = w.tape ++ t) (hlinked : ∀ e ∈ t, Linked (b.folder_path_ ++ [name]) w' e.1) :
    t.length ≤ b.usedBytes w' := by
  have hproject : ∀ i, (Tape.project i t).length ≤ (w'.content i).length := by
    intro i
    rw [World.content, ht, Tape.project_append, List.length_append]
    omega
  have hday : dirBytes w' (b.folder_path_ ++ [name]) ≤ b.usedBytes w' :=
    List.single_le_sum (by simp) _ (List.mem_map.mpr ⟨name, mem_dayDirs.mpr hdir, rfl⟩)
  refine le_trans (le_trans (length_le_sum_project (w'.tree.children (b.folder_path_ ++ [name]))
    fun e he => ?_) ?_) hday
  · obtain ⟨file, hfile⟩ := hlinked e he
    exact ⟨file, Tree.mem_children.mpr hfile⟩
  · refine List.sum_le_sum fun c _ => ?_
    obtain ⟨c, _ | i⟩ := c
    · exact le_rfl
    · exact hproject i

/-! ## No files -/

/-- The root is a directory, and no file is on the way to it or below it. -/
structure NoFiles (root : Path) (w : World) : Prop where
  dir : w.tree.lookup root = some .dir
  above : ∀ p i, p <+: root → w.tree.lookup p ≠ some (.file i)
  below : ∀ p i, root <+: p → w.tree.lookup p ≠ some (.file i)

namespace NoFiles

variable {root : Path} {w w' : World}

lemma of_files (h : NoFiles root w) (hroot : w'.tree.lookup root = some .dir)
    (hf : ∀ p i, w'.tree.lookup p = some (.file i) → w.tree.lookup p = some (.file i)) :
    NoFiles root w' where
  dir := hroot
  above p i hp hi := h.above p i hp (hf p i hi)
  below p i hp hi := h.below p i hp (hf p i hi)

lemma of_tree (h : NoFiles root w) (ht : w'.tree = w.tree) : NoFiles root w' :=
  h.of_files (by rw [ht]; exact h.dir) fun p i hi => by rwa [ht] at hi

lemma dirBytes_eq_zero (h : NoFiles root w) (name : Bytes) : dirBytes w (root ++ [name]) = 0 := by
  refine List.sum_eq_zero fun n hn => ?_
  obtain ⟨⟨c, node⟩, hmem, rfl⟩ := List.mem_map.mp hn
  cases node with
  | dir => rfl
  | file i =>
      refine absurd (Tree.mem_children.mp hmem) (h.below _ i ?_)
      rw [List.append_assoc]
      exact List.prefix_append _ _

/-- Without files nothing is on disk. -/
lemma usedBytes_eq_zero {b : FilesystemStorageBackend} (h : NoFiles b.folder_path_ w) :
    b.usedBytes w = 0 := by
  refine List.sum_eq_zero fun n hn => ?_
  obtain ⟨name, -, rfl⟩ := List.mem_map.mp hn
  exact h.dirBytes_eq_zero name

/-- Nothing is in the way of a day directory. -/
lemma not_blocked (h : NoFiles root w) (name : Bytes) :
    w.tree.blocked (root ++ [name]) = false := by
  rw [Tree.blocked, List.any_eq_false]
  intro q hq
  have hpre : q <+: root ++ [name] := (List.mem_inits q _).mp hq
  have hfile : ∀ i, w.tree.lookup q ≠ some (.file i) := by
    rcases List.prefix_concat_iff.mp hpre with rfl | hpre
    · exact fun i => h.below _ i (List.prefix_append _ _)
    · exact fun i => h.above q i hpre
  cases hq : w.tree.lookup q with
  | none => simp
  | some n =>
      cases n with
      | dir => simp
      | file i => exact absurd hq (hfile i)

/-- **Eviction of empty days** frees nothing. -/
lemma evicts {b : FilesystemStorageBackend} {need available available' : ℕ} {names : List Bytes}
    (h : NoFiles b.folder_path_ w) (hlt : available < 2 ^ 64)
    (he : Evicts b need available w names available' w') :
    available' = available ∧ NoFiles b.folder_path_ w' ∧
      ∀ p n, w'.tree.lookup p = some n → w.tree.lookup p = some n := by
  induction he with
  | stop => exact ⟨rfl, h, fun _ _ hp => hp⟩
  | evict hneed hday hdelete hrest ih =>
      obtain ⟨hdir, rfl, rfl⟩ := deleteFolder_eq_some hdelete
      rename_i avail _ w _ _
      have hless : ∀ p n, (w.tree.remove_all (b.folder_path_ ++
          [to_string (b.findOldest w)])).lookup p = some n → w.tree.lookup p = some n := by
        intro p n hp
        rw [Tree.lookup_remove_all] at hp
        split_ifs at hp
        exact hp
      have hsame : (avail + dirBytes w (b.folder_path_ ++ [to_string (b.findOldest w)])) % 2 ^ 64 =
          avail := by
        rw [h.dirBytes_eq_zero, Nat.add_zero, Nat.mod_eq_of_lt hlt]
      have hroot : (w.tree.remove_all (b.folder_path_ ++ [to_string (b.findOldest w)])).lookup
          b.folder_path_ = some .dir := by
        rw [Tree.lookup_remove_all, if_neg (fun hp => by simpa using hp.length_le)]
        exact h.dir
      obtain ⟨hav, hno, hold⟩ := ih (h.of_files hroot fun p i => hless p _) (by rwa [hsame])
      exact ⟨hav.trans hsame, hno, fun p n hp => hless p n (hold p n hp)⟩

end NoFiles

/-- The storage root is an empty directory. -/
structure EmptyRoot (root : Path) (w : World) : Prop where
  dir : w.tree.lookup root = some .dir
  above : ∀ p i, p <+: root → w.tree.lookup p ≠ some (.file i)
  empty : ∀ p, root <+: p → p ≠ root → w.tree.lookup p = none

lemma EmptyRoot.noFiles {root : Path} {w : World} (h : EmptyRoot root w) : NoFiles root w where
  dir := h.dir
  above := h.above
  below p i hp hi := by
    by_cases hroot : p = root
    · rw [hroot, h.dir] at hi
      cases hi
    · rw [h.empty p hp hroot] at hi
      cases hi

/-- `create_directories` on a directory that is there. -/
lemma Tree.mkdirs_of_dir {t : Tree} {dir : Path} (name : Bytes)
    (h : t.lookup (dir ++ [name]) = some .dir) : t.mkdirs (dir ++ [name]) = t := by
  have hrev : (dir ++ [name]).reverse = name :: dir.reverse := by simp
  have hback : (name :: dir.reverse).reverse = dir ++ [name] := by simp
  rw [mkdirs, hrev, mkdirsRev, hback, if_pos h]

/-! ## Opening the files of a stream -/

namespace Folder

/-- The files of a channel that is new to a directory can be named, and the first of them can be
created. -/
def OpensFiles (host : Host) (t : Tree) (dir : Path) (request : LogRequest) : Prop :=
  StreamWriter.Openable host
    { folder_ := dir, name_ := request.channel, record_size_ := request.size } request.time_ns t

/-- Every writer is closed. -/
def Closed (f : Folder) : Prop :=
  ∀ e ∈ f.files_, StreamWriter.live e.2.index_ = none ∧ StreamWriter.live e.2.data_ = none

variable {host : Host} {w : World} {f : Folder}

/-- There is nothing to close. -/
lemma close_closed (hf : f.Closed) : f.close host w = w := by
  unfold close
  unfold Closed at hf
  generalize f.files_ = files at hf ⊢
  induction files with
  | nil => rfl
  | cons e es ih =>
      obtain ⟨hi, hd⟩ := hf e List.mem_cons_self
      have hclose : (e.2.closeFile host w).2 = w := by
        simp only [StreamWriter.closeFile, StreamWriter.closeHandle, hi, hd]
      rw [List.foldl_cons, hclose]
      exact ih fun e he => hf e (List.mem_cons_of_mem _ he)

lemma update_closed (hf : f.Closed) (channel : Bytes) {s : StreamWriter}
    (hi : StreamWriter.live s.index_ = none) (hd : StreamWriter.live s.data_ = none) :
    (f.update channel s).Closed := by
  intro e he
  obtain ⟨e₀, he₀, rfl⟩ := List.mem_map.mp he
  by_cases hc : e₀.1 = channel
  · rw [if_pos hc]
    exact ⟨hi, hd⟩
  · rw [if_neg hc]
    exact hf e₀ he₀

/-- **A write that opens no files** to a folder of closed writers appends nothing. -/
lemma writeChannel_closed (hf : f.Closed) {request : LogRequest}
    (hno : ¬ (f.files_.lookup request.channel = none ∧
      OpensFiles host w.tree f.folder_ request)) :
    (f.writeChannel host request w).1.positive = false ∧
      (f.writeChannel host request w).2.1.Closed ∧
      w.Extends (f.writeChannel host request w).2.2 [] := by
  cases hlook : f.files_.lookup request.channel with
  | some s =>
      have hmem : (request.channel, s) ∈ f.files_ := by
        obtain ⟨l₁, l₂, heq, -⟩ := List.lookup_eq_some_iff.mp hlook
        rw [heq]
        simp
      obtain ⟨hi, hd⟩ := hf _ hmem
      have hwrite : s.write host request.time_ns request.data w = (.ret (-EINVAL), s, w) := by
        simp only [StreamWriter.write, hi]
      simp only [writeChannel, hlook, writeTo, hwrite]
      exact ⟨by decide, update_closed hf _ hi hd, World.Extends.of_eq rfl rfl rfl⟩
  | none =>
      have hopen : ¬ OpensFiles host w.tree f.folder_ request := fun h => hno ⟨hlook, h⟩
      simp only [writeChannel, hlook]
      obtain ⟨⟨out, s', w'⟩, ho⟩ : ∃ o, o =
        ({ folder_ := f.folder_ } : StreamWriter).openFile host
        request w := ⟨_, rfl⟩
      obtain ⟨hpos, hi, hd, -, -, he⟩ := StreamWriter.reopenFile_not_openable hopen ho.symm rfl
      have hadd : ({ f with files_ := f.files_ ++ [(request.channel, s')] } : Folder).Closed := by
        intro e he
        rcases List.mem_append.mp he with he | he
        · exact hf e he
        · rw [List.mem_singleton.mp he]
          exact ⟨hi, by rw [hd]; rfl⟩
      rw [← ho]
      cases out with
      | ret result =>
          have hle : result ≤ 0 := by simpa using hpos
          simp only [hle, if_true]
          exact ⟨hpos, hadd, he⟩
      | thrown => exact ⟨rfl, hadd, he⟩
      | hangs => exact ⟨rfl, hadd, he⟩

/-- **A write that opens files** appends at least a header more than it reports. -/
lemma writeChannel_opens (hn : host.NeverFails) {request : LogRequest}
    (hdata : request.data.length < 2 ^ 30) (hnew : f.files_.lookup request.channel = none)
    (hopen : OpensFiles host w.tree f.folder_ request) :
    ∃ v f' w', f.writeChannel host request w = (.ret v, f', w') ∧
      v.toNat ≤ maxRecordSize request.data.length ∧
      ∃ t, w'.tape = w.tape ++ t ∧ v.toNat + sizeofLogFileHeader ≤ t.length := by
  obtain ⟨v, s, w₁, ho, ⟨t, ht, hlen⟩, -, hwrites⟩ :=
    StreamWriter.reopenFile_openable hn hopen
  have hopened : ({ folder_ := f.folder_ } : StreamWriter).openFile host request w =
      (.ret v, s, w₁) := ho
  simp only [writeChannel, hnew, hopened]
  by_cases hv : v ≤ 0
  · rw [if_pos hv]
    have hz : v.toNat = 0 := Int.toNat_of_nonpos hv
    refine ⟨_, _, _, rfl, by omega, t, ht, by omega⟩
  · rw [if_neg hv]
    obtain ⟨i, d, hs, hi, hd⟩ := hwrites (not_le.mp hv)
    obtain ⟨v', s', w', hw, hneed, t', ht', hle⟩ := StreamWriter.write_first hn hs hi hd
      ⟨request.time_ns, request.data⟩ hdata
    simp only [writeTo, hw]
    refine ⟨_, _, _, rfl, hneed, t ++ t', by rw [ht', ht, List.append_assoc], ?_⟩
    rw [List.length_append]
    omega

/-- The day directory of a new folder, when nothing is in the way. -/
lemma create_reliable (hn : host.NeverFails) {root : Path} (hw : NoFiles root w)
    (time_ns : UInt64) :
    let c := ({ folder_ := root } : Folder).create host time_ns w
    c.1 = some true ∧
      c.2.1 = ⟨host.cal.Time2YYYYMMDD time_ns, dayDir host root time_ns, []⟩ ∧
      c.2.2.tree = w.tree.mkdirs (dayDir host root time_ns) ∧ c.2.2.tape = w.tape := by
  have hdir : root ++ [toDec (host.cal.Time2YYYYMMDD time_ns)] = dayDir host root time_ns := rfl
  simp only [create, hdir]
  cases hlook : w.tree.lookup (dayDir host root time_ns) with
  | some n =>
      have hn : n = .dir := by
        cases n with
        | dir => rfl
        | file i => exact absurd hlook (hw.below _ i (List.prefix_append _ _))
      rw [hn] at hlook
      simp only [ne_eq, reduceCtorEq, not_false_eq_true, if_true]
      exact ⟨trivial, trivial, (Tree.mkdirs_of_dir _ hlook).symm, trivial⟩
  | none =>
      have hfree : w.tree.blocked (dayDir host root time_ns) = false := hw.not_blocked _
      have hok := hn w.calls
      simp only [ne_eq, not_true_eq_false, if_false, create_directories, hok, hfree,
        Bool.false_eq_true]
      exact ⟨trivial, trivial, rfl, rfl⟩

end Folder

/-! ## A storage that has opened no stream -/

/-- **The call opens the files of a stream.**  There is room for the record, its channel has no
writer in the folder of its day, and new files can be made for it there. -/
def Storage.OpensStream (host : Host) (st : Storage) (request : LogRequest) (w : World) : Prop :=
  maxRecordSize request.data.length ≤ st.available_bytes_ ∧
    if st.backend_.folder_.sameDay host request.time_ns then
      st.backend_.folder_.files_.lookup request.channel = none ∧
        Folder.OpensFiles host w.tree (dayDir host st.backend_.folder_path_ request.time_ns) request
    else
      Folder.OpensFiles host (w.tree.mkdirs (dayDir host st.backend_.folder_path_ request.time_ns))
        (dayDir host st.backend_.folder_path_ request.time_ns) request

/-- The whole budget is available, there are no files, and every writer is closed. -/
structure Untouched (host : Host) (root : Path) (max_size : ℕ) (st : Storage)
    (w : World) : Prop where
  available : st.available_bytes_ = max_size
  inside : FilesystemStorageBackend.Inside host root st.backend_ w
  none : NoFiles root w
  closed : st.backend_.folder_.Closed

variable {host : Host} {root : Path} {max_size : ℕ} {st : Storage} {w : World}

/-- The budget is exact, and the bytes on disk are within it. -/
def Storage.Exact (max_size : ℕ) (st : Storage) (w : World) : Prop :=
  st.available_bytes_ + st.backend_.usedBytes w = max_size ∧ st.backend_.usedBytes w ≤ max_size

lemma Untouched.exact (h : Untouched host root max_size st w) : st.Exact max_size w := by
  have hused : st.backend_.usedBytes w = 0 := by
    refine NoFiles.usedBytes_eq_zero ?_
    rw [h.inside.path]
    exact h.none
  rw [Storage.Exact, hused, h.available]
  exact ⟨rfl, Nat.zero_le _⟩

/-- What the backend's write comes to, when the channel is of the active folder's day or of
another. -/
lemma backend_write_cases (hn : host.NeverFails) {b : FilesystemStorageBackend}
    (hin : FilesystemStorageBackend.Inside host root b w) (hno : NoFiles root w)
    (hclosed : b.folder_.Closed) (request : LogRequest) :
    ∃ (f : Folder) (w₁ : World), b.write host request w = ((f.writeChannel host request w₁).1,
        { b with folder_ := (f.writeChannel host request w₁).2.1 },
        (f.writeChannel host request w₁).2.2) ∧
      f.Closed ∧ f.folder_ = dayDir host root request.time_ns ∧ w₁.tape = w.tape ∧
      (if b.folder_.sameDay host request.time_ns then
        f.files_ = b.folder_.files_ ∧ w₁.tree = w.tree
      else f.files_ = [] ∧ w₁.tree = w.tree.mkdirs (dayDir host root request.time_ns)) := by
  obtain ⟨rfl, -, hfolder⟩ := hin
  simp only [FilesystemStorageBackend.write]
  by_cases hsame : b.folder_.sameDay host request.time_ns = true
  · have hday := (host.cal.day_bounds request.time_ns).1
    have hd : b.folder_.yyyymmdd_ = host.cal.Time2YYYYMMDD request.time_ns := by
      simpa [Folder.sameDay] using hsame
    have hwrite : b.folder_.write host request w = b.folder_.writeChannel host request w :=
      if_neg (by omega)
    have hdir : b.folder_.folder_ = dayDir host b.folder_path_ request.time_ns := by
      rw [(hfolder (by omega)).folder, hd]
      rfl
    simp only [hsame, if_true, hwrite]
    exact ⟨b.folder_, w, rfl, hclosed, hdir, rfl, rfl, rfl⟩
  · obtain ⟨h1, h2, h3, h4⟩ := Folder.create_reliable hn hno request.time_ns
    simp only [hsame, Bool.false_eq_true, if_false, Folder.close_closed hclosed, Folder.write,
      if_true, h1, h2]
    exact ⟨_, _, rfl, by simp [Folder.Closed], rfl, h4, rfl, h3⟩

/-- **A call that opens no files** leaves budget and disk alone. -/
lemma write_untouched (hn : host.NeverFails) (hmax : max_size < 2 ^ 64)
    (h : Untouched host root max_size st w) {request : LogRequest}
    (hno : ¬ st.OpensStream host request w) :
    Untouched host root max_size (st.write host request w).2.1 (st.write host request w).2.2 := by
  obtain ⟨rfl, hin, hnone, hclosed⟩ := h
  have hpath := hin.path
  -- eviction frees nothing, and what it leaves is as untouched as before
  have hevict : ∀ {names available' w'}, Evicts st.backend_ (maxRecordSize request.data.length)
      st.available_bytes_ w names available' w' →
      Untouched host root st.available_bytes_ { st with available_bytes_ := available' } w' := by
    intro names available' w' he
    obtain ⟨hav, hnone', hold⟩ := NoFiles.evicts (by rwa [hpath]) hmax he
    rw [hpath] at hnone'
    refine ⟨hav, ⟨hpath, fun t name hname => hin.flat t name (hold _ _ hname),
      fun hday => ?_⟩, hnone', hclosed⟩
    refine ⟨(hin.folder hday).folder, fun e he =>
      ⟨((hin.folder hday).streams e he).folder, ?_, ?_⟩⟩
    · intro f hf
      rw [(hclosed e he).1] at hf
      cases hf
    · intro f hf
      rw [(hclosed e he).2] at hf
      cases hf
  obtain ⟨hdone, hfull, hthrown⟩ := makeRoom_evicts st.backend_
    (maxRecordSize request.data.length) (w.tree.entries.length + 1) st.available_bytes_ w
  rw [Storage.write]
  cases hroom : Storage.makeRoom st.backend_ (maxRecordSize request.data.length)
      (w.tree.entries.length + 1) st.available_bytes_ w with
  | full available' w' => exact hevict (hfull hroom).2.choose_spec
  | thrown available' w' => exact hevict (hthrown hroom).choose_spec
  | hangs => exact ⟨rfl, hin, hnone, hclosed⟩
  | done available' w' =>
      obtain ⟨hneed, names, he⟩ := hdone hroom
      have hav : available' = st.available_bytes_ := (hevict he).available
      rw [hav] at hneed he
      obtain rfl := he.eq_nil hneed
      cases he
      have hin' := (backend_confined hin request).2
      obtain ⟨f, w₁, hwrite, hf, hdir, -, hday⟩ :=
        backend_write_cases hn hin hnone hclosed request
      have hnot : ¬ (f.files_.lookup request.channel = none ∧
          Folder.OpensFiles host w₁.tree f.folder_ request) := by
        rintro ⟨hnew, hopens⟩
        rw [hdir] at hopens
        refine hno ⟨hneed, ?_⟩
        rw [hpath]
        split_ifs at hday ⊢ with hsame
        · rw [hday.1] at hnew
          rw [hday.2] at hopens
          exact ⟨hnew, hopens⟩
        · rwa [hday.2] at hopens
      obtain ⟨hpos, hclosed', hext⟩ := Folder.writeChannel_closed hf hnot
      have hnone₁ : NoFiles root w₁ := by
        split_ifs at hday with hsame
        · exact hnone.of_tree hday.2
        · refine hnone.of_files ?_ fun p i hi => ?_
          · rw [hday.2]
            exact Tree.lookup_mkdirsRev_of_some hnone.dir _
          · rw [hday.2] at hi
            exact World.lookup_mkdirsRev_file _ hi
      have hnone' := hnone₁.of_tree hext.tree
      simp only [Storage.afterLoop, Storage.writeToBackend, hav]
      rw [hwrite] at hin' ⊢
      generalize f.writeChannel host request w₁ = r at hpos hclosed' hnone' hin' ⊢
      obtain ⟨out, f', w'⟩ := r
      cases out with
      | ret v =>
          have hle : ¬ 0 < v := by simpa using hpos
          simp only [hle, if_false]
          exact ⟨rfl, hin', hnone', hclosed'⟩
      | thrown => exact ⟨rfl, hin', hnone', hclosed'⟩
      | hangs => exact ⟨rfl, hin', hnone', hclosed'⟩

/-- **A call that opens files** leaves more on disk than it takes off the budget. -/
lemma write_exceeds (hn : host.NeverFails) (hmax : max_size < 2 ^ 64)
    (h : Untouched host root max_size st w) {request : LogRequest}
    (hdata : request.data.length < 2 ^ 30) (hopens : st.OpensStream host request w) :
    max_size + sizeofLogFileHeader ≤ (st.write host request w).2.1.available_bytes_ +
      (st.write host request w).2.1.backend_.usedBytes (st.write host request w).2.2 := by
  obtain ⟨rfl, hin, hnone, hclosed⟩ := h
  obtain ⟨hneed, hday'⟩ := hopens
  have hroom : Storage.makeRoom st.backend_ (maxRecordSize request.data.length)
      (w.tree.entries.length + 1) st.available_bytes_ w = .done st.available_bytes_ w :=
    if_pos hneed
  obtain ⟨hconf, hin'⟩ := backend_confined hin request
  obtain ⟨f, w₁, hwrite, -, hdir, htape, hday⟩ :=
    backend_write_cases hn hin hnone hclosed request
  have hgrows := (f.writeChannel_reaches host (fun _ => True) request w₁).grows
  have hopen : f.files_.lookup request.channel = none ∧
      Folder.OpensFiles host w₁.tree f.folder_ request := by
    rw [hin.path] at hday'
    rw [hdir]
    split_ifs at hday hday' with hsame
    · rw [hday.1, hday.2]
      exact hday'
    · rw [hday.1, hday.2]
      exact ⟨rfl, hday'⟩
  obtain ⟨v, f', w', hw, hle, t, ht, hlen⟩ := Folder.writeChannel_opens hn hdata hopen.1 hopen.2
  -- the files of the day are on disk
  have hdayDir : w'.tree.lookup (dayDir host root request.time_ns) = some .dir := by
    obtain ⟨name, -, p, hp⟩ := hopen.2
    rw [Tree.resolve] at hp
    split_ifs at hp with _ hlook
    rw [hw] at hgrows
    rw [← hdir]
    exact hgrows.lookup _ _ hlook
  obtain ⟨b', hb'⟩ : ∃ b' : FilesystemStorageBackend, b' =
    { st.backend_ with folder_ := f' } :=
    ⟨_, rfl⟩
  rw [hw, ← hb'] at hwrite
  rw [hwrite] at hconf hin'
  obtain ⟨t', ht', hlinked⟩ := hconf.tape
  obtain rfl : t = t' := by
    rw [htape] at ht
    exact List.append_cancel_left (ht.symm.trans ht')
  have hpath : b'.folder_path_ = root := hin'.path
  have hused : t.length ≤ b'.usedBytes w' := by
    rw [dayDir, ← hpath] at hdayDir hlinked
    exact length_le_usedBytes hdayDir ht' hlinked
  rw [Storage.write, hroom]
  simp only [Storage.afterLoop, Storage.writeToBackend, hwrite]
  split_ifs with hv
  · rw [Retention.counter_sub (hle.trans hneed) hmax]
    omega
  · have hz : v.toNat = 0 := Int.toNat_of_nonpos (not_lt.mp hv)
    omega

/-! ## Whole runs -/

/-- **The budget is exact along a run exactly as long as no call opens files.**  From an empty root,
after every call of a run, what is available and what is on disk add up to the budget, if and only
if no call of the run opens the files of a stream. -/
theorem budget_exact_iff (hn : host.NeverFails) {w₀ : World} (hempty : EmptyRoot root w₀)
    (hmax : max_size < 2 ^ 31) {requests : List LogRequest}
    (hdata : ∀ request ∈ requests, request.data.length < 2 ^ 30) :
    ∃ st₀, Storage.make root max_size w₀ = some (st₀, w₀) ∧
      ((∀ done (x : Storage × World), done <+: requests →
          Machine.run (Storage.writeStep host) (st₀, w₀) done = some x →
          x.1.available_bytes_ + x.1.backend_.usedBytes x.2 = max_size ∧
            x.1.backend_.usedBytes x.2 ≤ max_size) ↔
        Machine.Throughout (Storage.writeStep host)
          (fun (x : Storage × World) request => ¬ x.1.OpensStream host request x.2) (st₀, w₀)
          requests) := by
  have hnone := hempty.noFiles
  have hused : (FilesystemStorageBackend.make root).usedBytes w₀ = 0 :=
    NoFiles.usedBytes_eq_zero hnone
  have hsize : toSize (max_size : ℤ) = max_size := toSize_natCast (by omega)
  have hmake : Storage.make root max_size w₀ = some (⟨toSize (max_size : ℤ) -
      (FilesystemStorageBackend.make root).usedBytes w₀, FilesystemStorageBackend.make root⟩,
        w₀) :=
    make_of_le hempty.dir (by omega)
  rw [hused, hsize, Nat.sub_zero] at hmake
  have hstart : Untouched host root max_size ⟨max_size, FilesystemStorageBackend.make root⟩
    w₀ := by
    refine ⟨rfl, ⟨rfl, fun t name hname => ?_, fun h => absurd rfl h⟩, hnone, by
      simp [Folder.Closed, FilesystemStorageBackend.make]⟩
    rw [hempty.empty _ (by simp [dayDir]) (by simp [dayDir])] at hname
    cases hname
  refine ⟨_, hmake, ?_⟩
  refine Machine.forall_run_iff_throughout (P := fun x => x.1.Exact max_size x.2)
    (C := fun x request => ¬ x.1.OpensStream host request x.2)
    (s := (⟨max_size, FilesystemStorageBackend.make root⟩, w₀)) (fun _ _ => ⟨_, rfl⟩)
    (fun x (hx : Untouched host root max_size x.1 x.2) => hx.exact) hstart ?_ ?_
  · rintro x request - x' hx hno hx'
    have heq : (x.1.write host request x.2).2 = x' := Option.some.inj hx'
    rw [← heq]
    exact write_untouched hn (by omega) hx hno
  · rintro x request hmem x' hx hopens hx' hexact
    have heq : (x.1.write host request x.2).2 = x' := Option.some.inj hx'
    rw [← heq] at hexact
    have hmore := write_exceeds hn (by omega) hx (hdata request hmem) (not_not.mp hopens)
    have hsum := hexact.1
    simp only [sizeofLogFileHeader] at hmore
    omega

lemma emptyRoot_bare : EmptyRoot [ascii "r"] (.bare [ascii "r"]) := by
  have hall : ∀ p n, (World.bare [ascii "r"]).tree.lookup p = some n →
      p = [ascii "r"] ∧ n = .dir := by
    intro p n h
    rw [Tree.lookup_eq_some_iff] at h
    simpa [World.bare] using h
  refine ⟨by decide +kernel, fun p i _ h => ?_, fun p _ hne => ?_⟩
  · cases (hall p _ h).2
  · cases h : (World.bare [ascii "r"]).tree.lookup p with
    | none => rfl
    | some n => exact absurd (hall p n h).1 hne

/-- A budget too small for any record stays exact. -/
theorem budget_exact_small :
    let hello : LogRequest := ⟨ascii "a", 0, ascii "hello", 1704067200000000000⟩
    ∃ st, Storage.make [ascii "r"] (100 : ℕ)
      (.bare [ascii "r"]) = some (st, .bare [ascii "r"]) ∧
      ∀ x, Machine.run (Storage.writeStep .january) (st, .bare [ascii "r"]) [hello] = some x →
        x.1.available_bytes_ + x.1.backend_.usedBytes x.2 = 100 := by
  intro hello
  have hdata : ∀ request ∈ [hello], request.data.length < 2 ^ 30 := by
    simp only [List.mem_singleton, forall_eq]
    decide +kernel
  obtain ⟨st, hmake, hiff⟩ := budget_exact_iff Host.neverFails_january emptyRoot_bare
    (by norm_num : 100 < 2 ^ 31) hdata
  have hst : (Storage.make [ascii "r"] ((100 : ℕ) : ℤ) (.bare [ascii "r"])).map
      (fun x => x.1.available_bytes_) = some 100 := by decide +kernel
  rw [hmake, Option.map_some, Option.some.injEq] at hst
  have hsmall : ¬ maxRecordSize hello.data.length ≤ 100 := by decide +kernel
  refine ⟨st, hmake, fun x hrun => (hiff.mpr ⟨fun hopens => ?_, trivial⟩ [hello] x
    List.prefix_rfl hrun).1⟩
  exact hsmall (hst ▸ hopens.1)

/-- Two channels with one record of five bytes each, under a budget of `160` bytes: the budget comes
to `102` available bytes while `254` bytes are on disk. -/
theorem headers_exceed_budget :
    let hello : LogRequest := ⟨ascii "a", 0, ascii "hello", 1704067200000000000⟩
    let world : LogRequest := ⟨ascii "b", 0, ascii "world", 1704067200000000000⟩
    ((Storage.make [ascii "r"] 160 (.bare [ascii "r"])).map fun x =>
      let r := x.1.run .january [hello, world] x.2
      (r.1, r.2.1.available_bytes_, r.2.1.backend_.usedBytes r.2.2)) =
        some ([.ret 29, .ret 29], 102, 254) := by
  decide +kernel

end Tracebox
