import Tracebox.Storage.Accounting
import Tracebox.Storage.Eviction
import Tracebox.Storage.Reports

/-!
# Bytes that an eviction can find

What is taken off the budget comes back when the files it went to are evicted, so it has to be in
files that an eviction can find.  There is one way to miss that: the day that is being written can
itself be evicted.  **Its writers keep their open handles, and what they append from then on is in
no directory.**

* `backend_write_reports` — a call that reaches the backend never returns `0`.
* `usedBytes_add_le` — what is appended to linked files comes on top of what is on disk.
* `backend_write_active` — **a write to the backend adds what it appends to what is on disk**,
  unless it appends to files of a day that is gone.
* `deleteFolder_before` — a day goes once nothing is left before it.
* `AppendsUnlinked`, `appendsUnlinked_iff` — a call that appends to files of a day that is gone,
  told from the state before the call.
-/

namespace Tracebox

open Bytes FilesystemStorageBackend

/-! ## Never `0` -/

/-- The stream has the file open. -/
def StreamWriter.writes (s : StreamWriter) (inode : ℕ) : Bool :=
  (live s.index_).any (fun f => decide (f.inode = inode)) ||
    (live s.data_).any fun f => decide (f.inode = inode)

namespace Folder

variable {host : Host} {w : World} {f : Folder}

/-- The open handles of the writers are on files that were handed out. -/
def Issued (w : World) (f : Folder) : Prop := ∀ e ∈ f.files_, StreamWriter.Issued w e.2

lemma issued_of_lookup (hf : f.Issued w) {channel : Bytes} {s : StreamWriter}
    (h : f.files_.lookup channel = some s) : StreamWriter.Issued w s := by
  obtain ⟨l₁, l₂, heq, -⟩ := List.lookup_eq_some_iff.mp h
  exact hf (channel, s) (by simp [heq])

lemma writeChannel_reports (hf : f.Issued w) {request : LogRequest}
    (hdata : request.data.length < 2 ^ 31) {v : ℤ}
    (h : (f.writeChannel host request w).1 = .ret v) :
    Reports (122 + request.data.length) w (f.writeChannel host request w).2.2 v := by
  cases hlook : f.files_.lookup request.channel with
  | some s =>
      simp only [writeChannel, hlook, writeTo] at h ⊢
      exact StreamWriter.write_reports (issued_of_lookup hf hlook) request.time_ns hdata h
  | none =>
      simp only [writeChannel, hlook] at h ⊢
      obtain ⟨o, ho⟩ : ∃ o, o = ({ folder_ := f.folder_ } : StreamWriter).openFile
        host request w :=
        ⟨_, rfl⟩
      have hgrows : w.Grows o.2.2 := by
        rw [ho]
        exact (StreamWriter.reopenFile_reaches host (fun _ => True) _ _ w).grows
      have hreports : ∀ u, o.1 = .ret u → Reports (2 * sizeofLogFileHeader) w o.2.2 u := by
        rw [ho]
        exact fun u hu => StreamWriter.reopenFile_reports host _ _ w hu
      have hclosed : StreamWriter.Issued w
          { folder_ := f.folder_, name_ := request.channel, record_size_ := request.size } :=
        ⟨fun file hfile => (by cases hfile), fun file hfile => (by cases hfile)⟩
      have hissued : StreamWriter.Issued o.2.2 o.2.1 := by
        rw [ho]
        exact StreamWriter.reopenFile_issued host hclosed request.time_ns
      rw [← ho] at h ⊢
      obtain ⟨out, s, w₁⟩ := o
      cases out with
      | ret u =>
          obtain ⟨hne, hle, htape⟩ := hreports u rfl
          by_cases hu : u ≤ 0
          · simp only [hu, if_true] at h ⊢
            cases h
            exact .of_neg (lt_of_le_of_ne hu hne) hgrows.length_tape
          · simp only [hu, if_false, writeTo] at h ⊢
            obtain ⟨hne', hle', htape'⟩ :=
              StreamWriter.write_reports hissued request.time_ns hdata h
            have hlen : w.tape.length ≤ w₁.tape.length := hgrows.length_tape
            exact ⟨hne', hle', (Nat.add_le_add_right hlen _).trans htape'⟩
      | thrown => cases h
      | hangs => cases h

lemma write_reports (hf : f.Issued w) (hfresh : f.yyyymmdd_ = 0 → f.files_ = [])
    {request : LogRequest} (hdata : request.data.length < 2 ^ 31) {v : ℤ}
    (h : (f.write host request w).1 = .ret v) :
    Reports (122 + request.data.length) w (f.write host request w).2.2 v := by
  by_cases hday : f.yyyymmdd_ = 0
  · have hgrows := (f.create_reaches host (fun _ => True) request.time_ns w trivial).grows
    have hfiles : (f.create host request.time_ns w).2.1.files_ = f.files_ := by
      simp only [create]
      split
      · rfl
      · split <;> rfl
    rw [hfresh hday] at hfiles
    simp only [write, hday, if_true] at h ⊢
    generalize f.create host request.time_ns w = c at hgrows hfiles h ⊢
    obtain ⟨made, f', w'⟩ := c
    cases made with
    | none => cases h
    | some made =>
        cases made with
        | false =>
            cases h
            exact .of_neg (by decide) hgrows.length_tape
        | true =>
            have hf' : f'.Issued w' := by
              intro e he
              rw [hfiles] at he
              cases he
            obtain ⟨hne, hle, htape⟩ := writeChannel_reports hf' hdata h
            exact ⟨hne, hle, (Nat.add_le_add_right hgrows.length_tape _).trans htape⟩
  · simp only [write, hday, if_false] at h ⊢
    exact writeChannel_reports hf hdata h

end Folder

/-- **The backend reports no more than it appends**, and never `0`. -/
lemma backend_write_reports (host : Host) {b : FilesystemStorageBackend} {w : World}
    (hb : b.folder_.yyyymmdd_ ≠ 0 → b.folder_.Issued w) {request : LogRequest}
    (hdata : request.data.length < 2 ^ 31) {v : ℤ} (h : (b.write host request w).1 = .ret v) :
    Reports (122 + request.data.length) w (b.write host request w).2.2 v := by
  simp only [FilesystemStorageBackend.write] at h ⊢
  by_cases hsame : b.folder_.sameDay host request.time_ns = true
  · simp only [hsame, if_true] at h ⊢
    have hday : b.folder_.yyyymmdd_ ≠ 0 := by
      have hpos := (host.cal.day_bounds request.time_ns).1
      have heq := of_decide_eq_true hsame
      omega
    exact Folder.write_reports (hb hday) (fun hzero => absurd hzero hday) hdata h
  · simp only [hsame, Bool.false_eq_true, if_false] at h ⊢
    have hclose := (b.folder_.close_reaches host (fun _ => True) w).grows
    have hnew : ({ folder_ := b.folder_path_ } : Folder).Issued (b.folder_.close host w) :=
      fun e he => absurd he List.not_mem_nil
    obtain ⟨hne, hle, htape⟩ := Folder.write_reports hnew (fun _ => rfl) hdata h
    exact ⟨hne, hle, (Nat.add_le_add_right hclose.length_tape _).trans htape⟩

/-! ## Bytes on top of those on disk -/

/-- A sum over distinct elements is at most the sum over more of them. -/
lemma sum_map_le_of_subset {α : Type*} {l₁ l₂ : List α} (hnodup : l₁.Nodup)
    (hsub : l₁ ⊆ l₂)
    {g g' : α → ℕ} (hle : ∀ a ∈ l₁, g a ≤ g' a) :
    (l₁.map g).sum ≤ (l₂.map g').sum := by
  obtain ⟨l, hperm, hl⟩ := hnodup.subperm hsub
  calc (l₁.map g).sum ≤ (l₁.map g').sum := List.sum_le_sum hle
    _ = (l.map g').sum := (hperm.map g').sum_eq.symm
    _ ≤ (l₂.map g').sum := (hl.map g').sum_le_sum fun _ _ => Nat.zero_le _

lemma nodup_children (t : Tree) (dir : Path) : (t.children dir).Nodup :=
  (t.nodup_children dir).of_map

/-- A directory that keeps its files keeps its bytes. -/
lemma dirBytes_mono {w w' : World} {dir : Path} (h : w.Grows w') :
    dirBytes w dir ≤ dirBytes w' dir := by
  refine sum_map_le_of_subset (nodup_children _ _) ?_ ?_
  · rintro ⟨name, node⟩ hmem
    exact Tree.mem_children.mpr (h.lookup _ _ (Tree.mem_children.mp hmem))
  · rintro ⟨name, _ | i⟩ -
    · exact le_rfl
    · exact (h.content i).length_le

/-- What is appended to files of a directory comes on top of its bytes. -/
lemma dirBytes_add_le {w w' : World} {dir : Path} (h : w.Grows w') {t : List (ℕ × UInt8)}
    (ht : w'.tape = w.tape ++ t) (hlinked : ∀ e ∈ t, Linked dir w' e.1) :
    dirBytes w dir + t.length ≤ dirBytes w' dir := by
  have hold : dirBytes w dir ≤
      ((w'.tree.children dir).map fun c => c.2.weigh fun i => (w.content i).length).sum := by
    refine sum_map_le_of_subset (nodup_children _ _) ?_ fun _ _ => le_rfl
    rintro ⟨name, node⟩ hmem
    exact Tree.mem_children.mpr (h.lookup _ _ (Tree.mem_children.mp hmem))
  have hnew := length_le_sum_project (w'.tree.children dir) fun e he => by
    obtain ⟨name, hname⟩ := hlinked e he
    exact ⟨name, Tree.mem_children.mpr hname⟩
  have hsplit : dirBytes w' dir = ((w'.tree.children dir).map fun c =>
      (c.2.weigh fun i => (w.content i).length) +
        c.2.weigh fun i => (Tape.project i t).length).sum := by
    rw [dirBytes_eq_weigh]
    refine congrArg List.sum (List.map_congr_left ?_)
    rintro ⟨name, _ | i⟩ -
    · rfl
    · simp only [Node.weigh, World.content, ht, Tape.project_append, List.length_append]
  rw [hsplit, List.sum_map_add]
  exact Nat.add_le_add hold hnew

/-- **What is appended to linked files comes on top of what is on disk.** -/
lemma usedBytes_add_le {b : FilesystemStorageBackend} {w w' : World} {name : Bytes}
    (h : w.Grows w') (hdir : w'.tree.lookup (b.folder_path_ ++ [name]) = some .dir)
    {t : List (ℕ × UInt8)} (ht : w'.tape = w.tape ++ t)
    (hlinked : ∀ e ∈ t, Linked (b.folder_path_ ++ [name]) w' e.1) :
    b.usedBytes w + t.length ≤ b.usedBytes w' := by
  have hsub : b.dayDirs w ⊆ b.dayDirs w' := fun day hday =>
    mem_dayDirs.mpr (h.lookup _ _ (mem_dayDirs.mp hday))
  have hone : t.length ≤ ((b.dayDirs w').map fun day => if day = name then t.length else 0).sum :=
    List.single_le_sum (by simp) _ (List.mem_map.mpr ⟨name, mem_dayDirs.mpr hdir, if_pos rfl⟩)
  calc b.usedBytes w + t.length
      ≤ ((b.dayDirs w').map fun day => dirBytes w (b.folder_path_ ++ [day])).sum +
          ((b.dayDirs w').map fun day => if day = name then t.length else 0).sum :=
        Nat.add_le_add (sum_map_le_of_subset nodup_dayDirs hsub fun _ _ => le_rfl) hone
    _ = ((b.dayDirs w').map fun day =>
          dirBytes w (b.folder_path_ ++ [day]) + if day = name then t.length else 0).sum :=
        List.sum_map_add.symm
    _ ≤ b.usedBytes w' := by
        refine List.sum_le_sum fun day _ => ?_
        by_cases hday : day = name
        · subst hday
          rw [if_pos rfl]
          exact dirBytes_add_le h ht hlinked
        · rw [if_neg hday, Nat.add_zero]
          exact dirBytes_mono h

/-- Nothing is lost from the disk. -/
lemma usedBytes_mono {b : FilesystemStorageBackend} {w w' : World} (h : w.Grows w') :
    b.usedBytes w ≤ b.usedBytes w' :=
  sum_map_le_of_subset nodup_dayDirs
    (fun _ hday => mem_dayDirs.mpr (h.lookup _ _ (mem_dayDirs.mp hday))) fun _ _ => dirBytes_mono h

/-! ## The active folder -/

namespace Folder

variable {host : Host} {w w' : World} {f : Folder}

/-- A channel of the folder has an open index file. -/
def HasOpen (f : Folder) (channel : Bytes) : Prop :=
  ∃ s file, f.files_.lookup channel = some s ∧ StreamWriter.live s.index_ = some file

instance (f : Folder) (channel : Bytes) : Decidable (f.HasOpen channel) :=
  decidable_of_iff (∃ s ∈ f.files_.lookup channel, (StreamWriter.live s.index_).isSome = true)
    ⟨fun ⟨s, hs, hlive⟩ => ⟨s, _, hs, Option.eq_some_of_isSome hlive⟩,
      fun ⟨s, file, hs, hfile⟩ => ⟨s, hs, Option.isSome_iff_exists.mpr ⟨file, hfile⟩⟩⟩

/-- The folder writes to `dir`: as long as the directory is there, its files lie directly in it. -/
structure Active (dir : Path) (w : World) (f : Folder) : Prop where
  folder : f.folder_ = dir
  issued : f.Issued w
  inside : w.tree.lookup dir = some .dir → f.Inside dir w

lemma Inside.active {dir : Path} (h : f.Inside dir w) : f.Active dir w :=
  ⟨h.folder, fun e he => (h.streams e he).issued, fun _ => h⟩

/-- A stream of the folder has the file open. -/
def writes (f : Folder) (inode : ℕ) : Bool := f.files_.any fun e => e.2.writes inode

/-- **A write to a directory that is gone** appends nothing, reports nothing and opens nothing, as
long as its channel has no open files. -/
lemma writeChannel_gone (host : Host) (hgone : w.tree.lookup f.folder_ ≠ some .dir)
    {request : LogRequest} (hno : ¬ f.HasOpen request.channel) :
    (f.writeChannel host request w).1.positive = false ∧
      w.Extends (f.writeChannel host request w).2.2 [] ∧
      (f.Issued w → (f.writeChannel host request w).2.1.Issued
        (f.writeChannel host request w).2.2) ∧
      ∀ i, (f.writeChannel host request w).2.1.writes i = true → f.writes i = true := by
  cases hlook : f.files_.lookup request.channel with
  | some s =>
      have hdead : StreamWriter.live s.index_ = none := by
        rw [Option.eq_none_iff_forall_ne_some]
        exact fun file hfile => hno ⟨s, file, hlook, hfile⟩
      have hwrite : s.write host request.time_ns request.data w = (.ret (-EINVAL), s, w) := by
        simp only [StreamWriter.write, hdead]
      have hmem : (request.channel, s) ∈ f.files_ := by
        obtain ⟨l₁, l₂, heq, -⟩ := List.lookup_eq_some_iff.mp hlook
        simp [heq]
      -- the stream is put back as it was
      have hsame : ∀ e ∈ (f.update request.channel s).files_, e ∈ f.files_ := by
        intro e he
        obtain ⟨e₀, he₀, rfl⟩ := List.mem_map.mp he
        by_cases hc : e₀.1 = request.channel
        · rwa [if_pos hc]
        · rwa [if_neg hc]
      simp only [writeChannel, hlook, writeTo, hwrite]
      refine ⟨by
        decide, World.Extends.of_eq rfl rfl rfl, fun hissued e he => hissued e (hsame e he),
          fun i hi => ?_⟩
      obtain ⟨e, he, hwrites⟩ := List.any_eq_true.mp hi
      exact List.any_eq_true.mpr ⟨e, hsame e he, hwrites⟩
  | none =>
      obtain ⟨⟨out, s, w₁⟩, ho⟩ : ∃ o, o =
        ({ folder_ := f.folder_ } : StreamWriter).openFile host
        request w := ⟨_, rfl⟩
      -- no name resolves in a directory that is not there
      have hclosed : ¬ OpensFiles host w.tree f.folder_ request := by
        rintro ⟨name, -, p, hp⟩
        rw [Tree.resolve] at hp
        split_ifs at hp
      obtain ⟨hpos, hi, hd, -, -, he⟩ :=
        StreamWriter.reopenFile_not_openable hclosed ho.symm rfl
      have hdata : StreamWriter.live s.data_ = none := by rw [hd]; rfl
      have hadd : f.Issued w → ({ f with files_ := f.files_ ++ [(request.channel, s)] } :
          Folder).Issued w₁ := by
        intro hissued e hmem
        rcases List.mem_append.mp hmem with hmem | hmem
        · exact (hissued e hmem).mono he.inodes.ge
        · rw [List.mem_singleton.mp hmem]
          exact ⟨by simp [hi], by simp [hdata]⟩
      have hwrites : ∀ i, ({ f with files_ := f.files_ ++ [(request.channel, s)] } :
          Folder).writes i = true → f.writes i = true := fun i => by
        simp [writes, StreamWriter.writes, hi, hdata]
      simp only [writeChannel, hlook, ← ho]
      cases out with
      | ret result =>
          have hle : result ≤ 0 := by simpa using hpos
          simp only [hle, if_true]
          exact ⟨hpos, he, hadd, hwrites⟩
      | thrown => exact ⟨hpos, he, hadd, hwrites⟩
      | hangs => exact ⟨hpos, he, hadd, hwrites⟩

/-- A new folder whose directory is not there afterwards appends nothing. -/
lemma newFolder_gone (host : Host) (root : Path) (request : LogRequest) (w : World)
    (hgone : (({ folder_ := root } : Folder).write host request w).2.2.tree.lookup
      (dayDir host root request.time_ns) ≠ some .dir) :
    (({ folder_ := root } : Folder).write host request w).2.2.tape = w.tape := by
  obtain ⟨-, hfolder, hfiles, -⟩ := create_confined host root request.time_ns w
  have htape : (({ folder_ := root } : Folder).create host request.time_ns w).2.2.tape =
    w.tape := by
    simp only [create]
    split
    · rfl
    · have hmk : (create_directories host (root ++ [toDec (host.cal.Time2YYYYMMDD
          request.time_ns)]) w).2.tape = w.tape := by
        unfold create_directories
        split
        · split_ifs <;> rfl
        · rfl
        · rfl
      split <;> exact hmk
  simp only [write, if_true] at hgone ⊢
  generalize ({ folder_ := root } : Folder).create host request.time_ns w = c
    at hfolder hfiles htape hgone ⊢
  obtain ⟨made, f', w₁⟩ := c
  cases made with
  | none => exact htape
  | some made =>
      cases made with
      | false => exact htape
      | true =>
          have hgrows := (f'.writeChannel_reaches host (fun _ => True) request w₁).grows
          have hno : ¬ f'.HasOpen request.channel := by
            rintro ⟨s, file, hlook, -⟩
            rw [hfiles] at hlook
            cases hlook
          have hdir : w₁.tree.lookup f'.folder_ ≠ some .dir := fun hdir =>
            hgone (hfolder ▸ hgrows.lookup _ _ hdir)
          obtain ⟨-, hext, -, -⟩ := writeChannel_gone host hdir hno
          rw [hext.tape, List.append_nil]
          exact htape

end Folder

/-- The day directories have no subdirectories, and the active folder writes to that of its day,
which may be gone. -/
structure FilesystemStorageBackend.Active (host : Host) (root : Path) (b : FilesystemStorageBackend)
    (w : World) : Prop where
  path : b.folder_path_ = root
  flat : ∀ time_ns, w.tree.Flat (dayDir host root time_ns)
  folder : b.folder_.yyyymmdd_ ≠ 0 → b.folder_.Active (root ++ [toDec b.folder_.yyyymmdd_]) w

variable {host : Host} {root : Path} {max_size : ℕ} {st : Storage} {b : FilesystemStorageBackend}
  {w : World}

lemma FilesystemStorageBackend.Inside.active (h : FilesystemStorageBackend.Inside host root b w) :
    b.Active host root w :=
  ⟨h.path, h.flat, fun hday => (h.folder hday).active⟩

/-- The call appends to files whose directory is gone. -/
def FilesystemStorageBackend.AppendsGone (host : Host) (b : FilesystemStorageBackend)
    (request : LogRequest) (w : World) : Prop :=
  b.folder_.sameDay host request.time_ns = true ∧ b.folder_.HasOpen request.channel ∧
    w.tree.lookup (dayDir host b.folder_path_ request.time_ns) ≠ some .dir

instance (host : Host) (b : FilesystemStorageBackend) (request : LogRequest) (w : World) :
    Decidable (b.AppendsGone host request w) :=
  inferInstanceAs (Decidable (_ ∧ _ ∧ _))

/-- **A write to the backend**, unless it appends to files that are gone: what it appends comes on
top of what is on disk. -/
lemma backend_write_active (hb : b.Active host root w) {request : LogRequest}
    (hno : ¬ b.AppendsGone host request w) :
    (b.write host request w).2.1.Active host root (b.write host request w).2.2 ∧
      ∃ t, (b.write host request w).2.2.tape = w.tape ++ t ∧
        b.usedBytes w + t.length ≤ b.usedBytes (b.write host request w).2.2 := by
  have hgrows := backend_write_grows host b request w
  obtain ⟨rfl, hflat, hfolder⟩ := hb
  have hadd : ∀ {t : List (ℕ × UInt8)}, (b.write host request w).2.2.tape = w.tape ++ t →
      (∀ e ∈ t, Linked (dayDir host b.folder_path_ request.time_ns)
        (b.write host request w).2.2 e.1) →
      (b.write host request w).2.2.tree.lookup (dayDir host b.folder_path_ request.time_ns) =
        some .dir → b.usedBytes w + t.length ≤ b.usedBytes (b.write host request w).2.2 :=
    fun ht hlinked hdir => usedBytes_add_le hgrows hdir ht hlinked
  by_cases hsame : b.folder_.sameDay host request.time_ns = true
  · have hpos := (host.cal.day_bounds request.time_ns).1
    have heq : b.folder_.yyyymmdd_ = host.cal.Time2YYYYMMDD request.time_ns :=
      of_decide_eq_true hsame
    have hday : b.folder_.yyyymmdd_ ≠ 0 := by omega
    have hactive : b.folder_.Active (dayDir host b.folder_path_ request.time_ns) w := by
      rw [dayDir, ← heq]
      exact hfolder hday
    by_cases hdir : w.tree.lookup (dayDir host b.folder_path_ request.time_ns) = some .dir
    · -- the day is there, and so are the files of its streams
      have hin : FilesystemStorageBackend.Inside host b.folder_path_ b w := by
        refine ⟨rfl, hflat, fun _ => ?_⟩
        rw [heq]
        exact hactive.inside hdir
      obtain ⟨hconf, hin'⟩ := backend_confined hin request
      obtain ⟨t, ht, hlinked⟩ := hconf.tape
      exact ⟨hin'.active, t, ht, hadd ht hlinked (hconf.lookup _ _ hdir)⟩
    · have hidle : ¬ b.folder_.HasOpen request.channel := fun hopen =>
        hno ⟨hsame, hopen, hdir⟩
      obtain ⟨-, hext, hissued', -⟩ := Folder.writeChannel_gone host
        (hactive.folder ▸ hdir) hidle
      have hactive' : (b.folder_.writeChannel host request w).2.1.Active
          (dayDir host b.folder_path_ request.time_ns)
          (b.folder_.writeChannel host request w).2.2 := by
        refine ⟨(Folder.folder_writeChannel host _ request w).trans hactive.folder,
          hissued' hactive.issued, fun hthere => ?_⟩
        rw [hext.tree] at hthere
        exact absurd hthere hdir
      have hwrite : b.folder_.write host request w = b.folder_.writeChannel host request w :=
        if_neg hday
      have hback : b.write host request w = ((b.folder_.writeChannel host request w).1,
          { b with folder_ := (b.folder_.writeChannel host request w).2.1 },
          (b.folder_.writeChannel host request w).2.2) := by
        simp only [FilesystemStorageBackend.write, hsame, if_true, hwrite]
      rw [hback] at hgrows ⊢
      refine ⟨⟨rfl, fun t => ?_, fun _ => ?_⟩, [], hext.tape, usedBytes_mono hgrows⟩
      · rw [hext.tree]
        exact hflat t
      · rw [Folder.yyyymmdd_writeChannel, heq]
        exact hactive'
  · have hclose : Confined (dayDir host b.folder_path_ request.time_ns) w
        (b.folder_.close host w) := close_confined b.folder_ w
    obtain ⟨hconf, hin⟩ := newFolder_confined host request
      (hclose.flat le_rfl (hflat request.time_ns))
    have htape := (b.folder_.close_extends host w).tape
    have hgone := Folder.newFolder_gone host b.folder_path_ request (b.folder_.close host w)
    have hback : b.write host request w =
        ((({ folder_ := b.folder_path_ } : Folder).write host request (b.folder_.close host w)).1,
          { b with folder_ := (({ folder_ := b.folder_path_ } : Folder).write host request
            (b.folder_.close host w)).2.1 },
          (({ folder_ := b.folder_path_ } : Folder).write host request
            (b.folder_.close host w)).2.2) := by
      simp only [FilesystemStorageBackend.write, hsame, Bool.false_eq_true, if_false]
    rw [hback] at hadd hgrows ⊢
    generalize ({ folder_ := b.folder_path_ } : Folder).write host request
      (b.folder_.close host w) = r at hconf hin hgone hadd hgrows ⊢
    have hall := hclose.trans hconf
    refine ⟨⟨rfl, fun t => hall.flat (by simp [dayDir]) (hflat t), fun hday => ?_⟩, ?_⟩
    · obtain ⟨hd, hin'⟩ := hin hday
      rw [hd]
      exact hin'.active
    · by_cases hdir : r.2.2.tree.lookup (dayDir host b.folder_path_ request.time_ns) = some .dir
      · obtain ⟨t, ht, hlinked⟩ := hall.tape
        exact ⟨t, ht, hadd ht hlinked hdir⟩
      · exact ⟨[], (hgone hdir).trans htape, usedBytes_mono hgrows⟩

/-! ## Eviction -/

/-- A name that is taken for a day before `n`. -/
def isBefore (n : ℕ) (name : Bytes) : Bool := (dayOf name).any fun day : ℤ => decide (day < n)

/-- The bytes of the days before `n`. -/
def bytesBefore (b : FilesystemStorageBackend) (w : World) (n : ℕ) :
    ℕ := bytesOf b w (isBefore n)

/-- **Eviction moves bytes from the disk to the budget.** -/
lemma Evicts.conserves {need available available' : ℕ} {w' : World} {names : List Bytes}
    (h : Evicts b need available w names available' w')
    (hlt : available + b.usedBytes w < 2 ^ 64) :
    available' + b.usedBytes w' = available + b.usedBytes w := by
  induction h with
  | stop => rfl
  | evict hneed hday hdelete hrest ih =>
      have hused := usedBytes_deleteFolder hdelete
      rw [Nat.mod_eq_of_lt (by omega)] at ih
      rw [ih (by omega), hused]
      omega

/-- A file of a day that is still there is still there. -/
lemma Evicts.link {need available available' : ℕ} {w' : World} {names : List Bytes}
    (h : Evicts b need available w names available' w') {day name : Bytes} {node : Node}
    (hday : w'.tree.lookup (b.folder_path_ ++ [day]) = some .dir)
    (hname : w.tree.lookup (b.folder_path_ ++ [day] ++ [name]) = some node) :
    w'.tree.lookup (b.folder_path_ ++ [day] ++ [name]) = some node := by
  induction h with
  | stop => exact hname
  | evict hneed hmax hdelete hrest ih =>
      obtain ⟨-, -, rfl⟩ := deleteFolder_eq_some hdelete
      have hstill := hrest.lookup hday
      rw [World.tree_remove_all, Tree.lookup_remove_all] at hstill
      split_ifs at hstill with hdeleted
      refine ih hday ?_
      rw [World.tree_remove_all, Tree.lookup_remove_all, if_neg]
      · exact hname
      · intro hpre
        rcases List.prefix_concat_iff.mp hpre with heq | hpre
        · have := congrArg List.length heq
          simp at this
        · exact hdeleted hpre

/-- **One deletion, while day `n` is there.**  It takes that day, and then there is nothing before
it, or it takes one of the days before it. -/
lemma deleteFolder_before {n freed : ℕ} {w₁ : World} (hn : n < 99999999)
    (hmax : b.findOldest w ≠ kMaxDay)
    (hdelete : b.deleteFolder (to_string (b.findOldest w)) w = some (freed, w₁))
    (hday : w.tree.lookup (b.folder_path_ ++ [toDec n]) = some .dir) :
    (w₁.tree.lookup (b.folder_path_ ++ [toDec n]) ≠ some .dir ∧ bytesBefore b w n = 0) ∨
      (w₁.tree.lookup (b.folder_path_ ++ [toDec n]) = some .dir ∧
        bytesBefore b w n = bytesBefore b w₁ n + freed) := by
  have hold : Oldest b w (b.findOldest w) := by
    rcases findOldest_spec b w with ⟨heq, -⟩ | ⟨-, hold⟩
    · exact absurd heq hmax
    · exact hold
  have hmem : toDec n ∈ b.dayDirs w := mem_dayDirs.mpr hday
  obtain ⟨hdir, rfl, rfl⟩ := deleteFolder_eq_some hdelete
  obtain ⟨oldest, holdest⟩ : ∃ day, day = b.findOldest w := ⟨_, rfl⟩
  rw [← holdest] at hold hdir ⊢
  have hle : oldest ≤ n := hold.2 (toDec n) n ⟨hmem, dayOf_toDec hn⟩
  rcases hle.eq_or_lt with heq | hless
  · -- it is the oldest day, so no bytes lie before it
    left
    constructor
    · rw [heq, to_string_natCast, World.tree_remove_all, Tree.lookup_remove_all,
        if_pos List.prefix_rfl]
      simp
    · have hnil : (b.dayDirs w).filter (isBefore n) = [] := by
        rw [List.filter_eq_nil_iff]
        intro name hname hbefore
        obtain ⟨day, hd, hless⟩ := (Option.any_eq_true _ _).mp hbefore
        have hless : day < n := of_decide_eq_true hless
        have := hold.2 name day ⟨hname, hd⟩
        omega
      rw [bytesBefore, bytesOf, hnil]
      rfl
  · right
    have hspelled : dayOf (to_string oldest) = some oldest := by
      obtain ⟨⟨name, hname⟩, -⟩ := hold
      exact dayOf_to_string hname.2
    have hfilter : to_string oldest ∈ (b.dayDirs w).filter (isBefore n) := by
      refine List.mem_filter.mpr ⟨mem_dayDirs.mpr hdir, ?_⟩
      rw [isBefore, hspelled]
      exact decide_eq_true hless
    refine ⟨?_, (bytesOf_remove_all hfilter).2⟩
    rw [World.tree_remove_all, Tree.lookup_remove_all, if_neg]
    · exact hday
    · rw [List.prefix_append_right_inj]
      intro hpre
      have hname : to_string oldest = toDec n := by simpa using hpre
      rw [hname, dayOf_toDec hn, Option.some.injEq] at hspelled
      omega

/-- **A day goes only when the days before it are not enough.** -/
lemma Evicts.before {need available available' n : ℕ} {w' : World} {names : List Bytes}
    (h : Evicts b need available w names available' w') (hn : n < 99999999)
    (hlt : available + b.usedBytes w < 2 ^ 64)
    (hday : w.tree.lookup (b.folder_path_ ++ [toDec n]) = some .dir)
    (hgone : w'.tree.lookup (b.folder_path_ ++ [toDec n]) ≠ some .dir) :
    available + bytesBefore b w n < need := by
  induction h with
  | stop => exact absurd hday hgone
  | evict hneed hmax hdelete hrest ih =>
      have hused := usedBytes_deleteFolder hdelete
      rw [Nat.mod_eq_of_lt (by omega)] at ih
      rcases deleteFolder_before hn hmax hdelete hday with ⟨-, hzero⟩ | ⟨hkept, hbytes⟩
      · omega
      · have := ih (by omega) hkept hgone
        omega

/-- As long as a day is there, all that was freed lay before it. -/
lemma Evicts.freed_le {need available available' n : ℕ} {w' : World} {names : List Bytes}
    (h : Evicts b need available w names available' w') (hn : n < 99999999)
    (hday : w'.tree.lookup (b.folder_path_ ++ [toDec n]) = some .dir) :
    available' ≤ available + bytesBefore b w n := by
  induction h with
  | stop => exact Nat.le_add_right _ _
  | @evict available available' freed w w₁ w' names hneed hmax hdelete hrest ih =>
      have hthere : w.tree.lookup (b.folder_path_ ++ [toDec n]) = some .dir :=
        (Evicts.evict hneed hmax hdelete hrest).lookup hday
      have hle := ih hday
      have hmod : (available + freed) % 2 ^ 64 ≤ available + freed := Nat.mod_le _ _
      rcases deleteFolder_before hn hmax hdelete hthere with ⟨hgone, -⟩ | ⟨-, hbytes⟩
      · exact absurd (hrest.lookup hday) hgone
      · omega

lemma Evicts.inodes {need available available' : ℕ} {w' : World} {names : List Bytes}
    (h : Evicts b need available w names available' w') : w'.inodes = w.inodes := by
  induction h with
  | stop => rfl
  | evict hneed hmax hdelete hrest ih =>
      obtain ⟨-, -, rfl⟩ := deleteFolder_eq_some hdelete
      exact ih

/-- What is left of the active folder. -/
lemma Evicts.active {need available available' : ℕ} {w' : World} {names : List Bytes}
    (h : Evicts b need available w names available' w') (hb : b.Active host root w) :
    b.Active host root w' := by
  obtain ⟨rfl, hflat, hfolder⟩ := hb
  refine ⟨rfl, fun t name hname => hflat t name (h.lookup hname), fun hday => ?_⟩
  obtain ⟨hdir, hissued, hinside⟩ := hfolder hday
  refine ⟨hdir, fun e he => (hissued e he).mono h.inodes.ge, fun hthere => ?_⟩
  have hin := hinside (h.lookup hthere)
  refine ⟨hin.folder, fun e he => ⟨(hin.streams e he).folder, fun file hfile => ?_,
    fun file hfile => ?_⟩⟩
  · obtain ⟨name, hname⟩ := (hin.streams e he).index file hfile
    exact ⟨name, h.link hthere hname⟩
  · obtain ⟨name, hname⟩ := (hin.streams e he).data file hfile
    exact ⟨name, h.link hthere hname⟩

/-! ## The budget -/

/-- **The call appends to files of a day that is gone.**  The channel has open files in the active
folder, there is room for the record, and the folder's directory either is gone already or goes
before the record is written, because what the days before it free is not enough. -/
def Storage.AppendsUnlinked (host : Host) (st : Storage) (request : LogRequest)
    (w : World) : Prop :=
  st.backend_.folder_.sameDay host request.time_ns = true ∧
    st.backend_.folder_.HasOpen request.channel ∧
    maxRecordSize request.data.length ≤ st.available_bytes_ + st.backend_.usedBytes w ∧
    (w.tree.lookup (dayDir host st.backend_.folder_path_ request.time_ns) ≠ some .dir ∨
      st.available_bytes_ + bytesBefore st.backend_ w (host.cal.Time2YYYYMMDD request.time_ns) <
        maxRecordSize request.data.length)

/-- The available bytes and those on disk can be added up in a `size_t`. -/
def Storage.Countable (st : Storage) (w : World) : Prop :=
  st.available_bytes_ + st.backend_.usedBytes w < 2 ^ 64

/-- The condition on the state before the call says what happens after the eviction. -/
lemma appendsUnlinked_iff {request : LogRequest} {available : ℕ} {w₁ : World}
    {names : List Bytes}
    (he : Evicts st.backend_ (maxRecordSize request.data.length) st.available_bytes_ w names
      available w₁) (hneed : maxRecordSize request.data.length ≤ available)
    (hcount : st.Countable w) :
    st.AppendsUnlinked host request w ↔ st.backend_.AppendsGone host request w₁ := by
  have hday := (host.cal.day_bounds request.time_ns).2
  have hsum := he.conserves hcount
  constructor
  · rintro ⟨hsame, hopen, -, hgone⟩
    refine ⟨hsame, hopen, fun hthere => ?_⟩
    rcases hgone with hgone | hless
    · exact hgone (he.lookup hthere)
    · have := he.freed_le hday hthere
      omega
  · rintro ⟨hsame, hopen, hgone⟩
    refine ⟨hsame, hopen, by omega, ?_⟩
    by_cases hthere : w.tree.lookup (dayDir host st.backend_.folder_path_ request.time_ns) =
        some .dir
    · exact .inr (he.before hday hcount hthere hgone)
    · exact .inl hthere

/-- A root without subdirectories has nothing on disk. -/
lemma DayRoot.usedBytes_of_none (h : DayRoot root b w) (hno : b.findOldest w = kMaxDay) :
    b.usedBytes w = 0 := by
  have hnone : b.dayDirs w = [] := by
    rw [List.eq_nil_iff_forall_not_mem]
    intro name hname
    obtain ⟨n, hn, rfl⟩ := h.canonical name hname
    rcases findOldest_spec b w with ⟨-, hall⟩ | ⟨hmax, -⟩
    · exact hall (toDec n) n ⟨hname, dayOf_toDec hn⟩
    · exact hmax hno
  rw [usedBytes, hnone]
  rfl

lemma DayRoot.evict {need available available' : ℕ} {w' : World} {names : List Bytes}
    (h : DayRoot root b w) (he : Evicts b need available w names available' w') :
    DayRoot root b w' where
  path := h.path
  root := by
    rw [← h.path]
    exact he.root (by rw [h.path]; exact h.root)
  canonical name hname := h.canonical name (mem_dayDirs.mpr (he.lookup (mem_dayDirs.mp hname)))

/-- The storage that the constructor makes for an empty root. -/
lemma make_of_empty {w₀ : World} (hempty : EmptyRoot root w₀) (hmax : max_size < 2 ^ 31) :
    Storage.make root max_size w₀ =
      some (⟨max_size, FilesystemStorageBackend.make root⟩, w₀) := by
  have hused : (FilesystemStorageBackend.make root).usedBytes w₀ = 0 :=
    NoFiles.usedBytes_eq_zero hempty.noFiles
  have hsize : toSize (max_size : ℤ) = max_size := toSize_natCast (by omega)
  have hmake : Storage.make root max_size w₀ = some (⟨toSize (max_size : ℤ) -
      (FilesystemStorageBackend.make root).usedBytes w₀, FilesystemStorageBackend.make root⟩,
        w₀) :=
    make_of_le hempty.dir (by omega)
  rw [hmake, hused, hsize, Nat.sub_zero]

end Tracebox
