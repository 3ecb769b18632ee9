import Tracebox.Lib.Machine
import Tracebox.Stream.Append
import Tracebox.Writer.Storage

/-!
# Where the writer writes

A channel name comes from the network and becomes part of a path.  What keeps the path where it
belongs is the time of day in front of it: the first component of every file name begins with a
digit, so it is neither `.` nor `..`, and a walk that goes on behind it needs a directory of that
name inside the day directory.  There is none, because the writer makes directories for days only.

* `resolve_first` — **a name that begins with a digit lies directly in a directory that has no
  subdirectories**, or nowhere.
* `Confined` — what an operation may do that keeps to one directory.
* `write_confined` — every operation of a stream does.
* `backend_confined` — **so does the backend**: what a request touches lies directly in its day
  directory, whatever the channel names were.
-/

namespace Tracebox

open Bytes

/-! ## Names that begin with a digit -/

namespace Tree

/-- The directory has no subdirectories. -/
def Flat (t : Tree) (dir : Path) : Prop := ∀ name, t.lookup (dir ++ [name]) ≠ some .dir

/-- The first component of a text that begins with a digit. -/
lemma components_digit {b : UInt8} (hb : isDigit b = true) (rest : Bytes) :
    ∃ c cs, components (b :: rest) = (b :: c) :: cs := by
  have h0 : b ≠ 0 := by rintro rfl; simp [isDigit] at hb
  have h46 : b ≠ 46 := by rintro rfl; simp [isDigit] at hb
  have h47 : b ≠ 47 := by rintro rfl; simp [isDigit] at hb
  have hc : cString (b :: rest) = b :: cString rest := by simp [cString, h0]
  cases hs : splitOn 47 (cString rest) with
  | nil => exact absurd hs (splitOn_ne_nil 47 _)
  | cons p ps =>
      have hsplit : splitOn 47 (cString (b :: rest)) = (b :: p) :: ps := by
        rw [hc, splitOn, if_neg h47, hs]
      cases ps with
      | nil => exact ⟨p, [], by simp [components, hsplit]⟩
      | cons q qs =>
          rw [components, hsplit, List.dropLast_cons_cons, List.filter_cons_of_pos (by simp [h46]),
            List.cons_append]
          exact ⟨p, _, rfl⟩

/-- **A name that begins with a digit lies directly in a flat directory**, or nowhere. -/
lemma resolve_first {t : Tree} {dir p : Path} {b : UInt8} {rest : Bytes} (hb : isDigit b = true)
    (hflat : t.Flat dir) (h : t.resolve dir (b :: rest) = .ok p) : ∃ name, p = dir ++ [name] := by
  have h46 : b ≠ 46 := by rintro rfl; simp [isDigit] at hb
  rw [resolve] at h
  split_ifs at h with hlong hdir
  obtain ⟨c, cs, hcs⟩ := components_digit hb rest
  rw [hcs, walk, if_neg (by simp [h46] : ¬ b :: c = [46]),
    if_neg (by simp [h46] : ¬ b :: c = [46, 46])] at h
  by_cases hmax : NAME_MAX < (b :: c).length
  · rw [if_pos hmax] at h
    cases h
  rw [if_neg hmax] at h
  cases hlook : t.lookup (dir ++ [b :: c]) with
  | none =>
      simp only [hlook] at h
      split_ifs at h
      exact ⟨b :: c, (Except.ok.inj h).symm⟩
  | some n =>
      cases n with
      | dir => exact absurd hlook (hflat (b :: c))
      | file i =>
          simp only [hlook] at h
          split_ifs at h
          exact ⟨b :: c, (Except.ok.inj h).symm⟩

end Tree

/-! ## Keeping to one directory -/

/-- A name in the directory leads to the file. -/
def Linked (dir : Path) (w : World) (inode : ℕ) : Prop :=
  ∃ name, w.tree.lookup (dir ++ [name]) = some (.file inode)

/-- What an operation does that keeps to `dir`: new files lie directly in it, new directories are it
and what is above it, and bytes are appended to files in it only. -/
structure Confined (dir : Path) (w w' : World) : Prop where
  lookup : ∀ p n, w.tree.lookup p = some n → w'.tree.lookup p = some n
  files : ∀ p i, w'.tree.lookup p = some (.file i) →
    w.tree.lookup p = some (.file i) ∨ ∃ name, p = dir ++ [name]
  dirs : ∀ p, w'.tree.lookup p = some .dir → w.tree.lookup p = some .dir ∨ p <+: dir
  tape : ∃ t, w'.tape = w.tape ++ t ∧ ∀ e ∈ t, Linked dir w' e.1

namespace Confined

variable {dir : Path} {w w₁ w' : World}

lemma linked (h : Confined dir w w') {i : ℕ} (hi : Linked dir w i) : Linked dir w' i := by
  obtain ⟨name, hname⟩ := hi
  exact ⟨name, h.lookup _ _ hname⟩

lemma trans (h₁ : Confined dir w w₁) (h₂ : Confined dir w₁ w') : Confined dir w w' where
  lookup p n hp := h₂.lookup p n (h₁.lookup p n hp)
  files p i hp := (h₂.files p i hp).elim (h₁.files p i) Or.inr
  dirs p hp := (h₂.dirs p hp).elim (h₁.dirs p) Or.inr
  tape := by
    obtain ⟨t, ht, htl⟩ := h₁.tape
    obtain ⟨u, hu, hul⟩ := h₂.tape
    refine ⟨t ++ u, by rw [hu, ht, List.append_assoc], fun e he => ?_⟩
    rcases List.mem_append.mp he with he | he
    · exact h₂.linked (htl e he)
    · exact hul e he

/-- Bytes appended to files in the directory. -/
lemma of_extends {t : List (ℕ × UInt8)} (h : w.Extends w' t)
    (ht : ∀ e ∈ t, Linked dir w e.1) : Confined dir w w' where
  lookup p n hp := by rwa [h.tree]
  files p i hp := Or.inl (by rwa [← h.tree])
  dirs p hp := Or.inl (by rwa [← h.tree])
  tape := ⟨t, h.tape, fun e he => by
    rw [Linked, h.tree]
    exact ht e he⟩

lemma of_eq (ht : w'.tree = w.tree) (hi : w'.inodes = w.inodes) (hp : w'.tape = w.tape) :
    Confined dir w w' :=
  of_extends (World.Extends.of_eq ht hi hp) (by simp)

lemma refl (w : World) : Confined dir w w := of_eq rfl rfl rfl

lemma called (w : World) : Confined dir w w.called := of_eq rfl rfl rfl

lemma now (host : Host) (w : World) : Confined dir w (w.now host).2 := of_eq rfl rfl rfl

/-- A directory without subdirectories stays so. -/
lemma flat (h : Confined dir w w') {d : Path} (hlen : dir.length ≤ d.length)
    (hd : w.tree.Flat d) : w'.tree.Flat d := fun name hname => by
  rcases h.dirs _ hname with hold | hpre
  · exact hd name hold
  · have := hpre.length_le
    simp only [List.length_append, List.length_singleton] at this
    omega

/-- A new file in the directory. -/
lemma create {name : Bytes} (hfree : w.tree.lookup (dir ++ [name]) = none) :
    Confined dir w (w.create (dir ++ [name])) where
  lookup p n hp := Tree.lookup_add_of_some _ hp
  files p i hp := by
    rw [World.tree_create, Tree.lookup_add _ hfree] at hp
    split_ifs at hp with heq
    · exact Or.inr ⟨name, heq⟩
    · exact Or.inl hp
  dirs p hp := by
    rw [World.tree_create, Tree.lookup_add _ hfree] at hp
    split_ifs at hp
    · cases hp
    · exact Or.inl hp
  tape := ⟨[], by simp, by simp⟩

/-- The directory itself. -/
lemma mkdirs (w : World) : Confined dir w (w.mkdirs dir) where
  lookup p n hp := Tree.lookup_mkdirsRev_of_some hp _
  files p i hp := Or.inl (World.lookup_mkdirsRev_file _ hp)
  dirs _ hp := Tree.dir_of_mkdirs hp
  tape := ⟨[], by simp, by simp⟩

end Confined

namespace FileIo

variable {host : Host} {dir : Path} {w : World}

lemma confined_write {f : FileIo} (hf : Linked dir w f.inode) (bytes : Bytes) :
    Confined dir w (f.write host bytes w).2 := by
  obtain ⟨name, hname⟩ := hf
  have hlt := w.linked _ _ hname
  have happend : ∀ bs : Bytes, Confined dir w (w.record (.append f.inode bs)).called := by
    intro bs
    refine (Confined.of_extends (World.extends_record hlt bs) fun e he => ?_).trans (.called _)
    obtain ⟨b, -, rfl⟩ := List.mem_map.mp he
    exact ⟨name, hname⟩
  unfold write
  split
  · exact happend bytes
  · exact happend _
  · exact .called w

lemma confined_flush (f : FileIo) (w : World) : Confined dir w (f.flush host w).2 :=
  .of_extends (flush_extends f w) (by simp)

/-- Opening a name that begins with a digit. -/
lemma confined_open (host : Host) {b : UInt8} (rest : Bytes) (hb : isDigit b = true)
    (hflat : w.tree.Flat dir) :
    Confined dir w (open_ host dir (b :: rest) w).2 ∧
      ((open_ host dir (b :: rest) w).1.is_open = true →
        Linked dir (open_ host dir (b :: rest) w).2 (open_ host dir (b :: rest) w).1.inode) := by
  unfold open_
  split
  · rename_i p _ hp
    obtain ⟨name, rfl⟩ := Tree.resolve_first hb hflat hp
    split
    · rename_i i hi
      exact ⟨.called w, fun _ => ⟨name, hi⟩⟩
    · exact ⟨.called w, fun h => by simp [unopened] at h⟩
    · rename_i hfree
      refine ⟨(Confined.create hfree).trans (.called _), fun _ => ⟨name, ?_⟩⟩
      simp [Tree.lookup_add _ hfree]
  · exact ⟨.called w, fun h => by simp [unopened] at h⟩

end FileIo

/-! ## A stream -/

namespace StreamWriter

variable {host : Host} {dir : Path} {w w' : World} {s s' : StreamWriter}

/-- The stream's folder is `dir`, and its open files lie directly in it. -/
structure Inside (dir : Path) (w : World) (s : StreamWriter) : Prop where
  folder : s.folder_ = dir
  index : ∀ f, live s.index_ = some f → Linked dir w f.inode
  data : ∀ f, live s.data_ = some f → Linked dir w f.inode

lemma Inside.mono (hs : Inside dir w s) (h : Confined dir w w') : Inside dir w' s :=
  ⟨hs.folder, fun f hf => h.linked (hs.index f hf), fun f hf => h.linked (hs.data f hf)⟩

/-- The time of day in front of a file name. -/
lemma candidate_digit {time_ns : UInt64} {name : Bytes}
    (h : Candidate (s.fileName host time_ns) name) (ext : Bytes) :
    ∃ b rest, isDigit b = true ∧ name ++ ext = b :: rest := by
  have hh := (host.cal.localtime time_ns).hour_le
  have hdigit : isDigit (UInt8.ofNat (48 + (host.cal.localtime time_ns).tm_hour / 10)) = true :=
    isDigit_of_mem_pad2 (n := (host.cal.localtime time_ns).tm_hour) (by omega) (by simp [pad2])
  rcases h with rfl | ⟨k, rfl⟩
  · exact ⟨_, _, hdigit, rfl⟩
  · exact ⟨_, _, hdigit, rfl⟩

/-- Calls that each keep to the directory. -/
lemma tryAll_confined {calls : List (World → Bool × World)}
    (h : ∀ call ∈ calls, ∀ w₁, Confined dir w w₁ → Confined dir w₁ (call w₁).2) :
    ∀ w₁, Confined dir w w₁ → Confined dir w (tryAll calls w₁).2 := by
  induction calls with
  | nil => exact fun w₁ h₁ => h₁
  | cons call calls ih =>
      intro w₁ h₁
      have hone := h₁.trans (h call List.mem_cons_self w₁ h₁)
      rw [tryAll]
      split_ifs
      · exact ih (fun c hc => h c (List.mem_cons_of_mem _ hc)) _ hone
      · exact hone

/-- Appends to a file in the directory, then a flush when one is due. -/
lemma blocks_confined {f : FileIo} (hf : Linked dir w f.inode) (flush : Bool)
    (blocks : List Bytes) :
    Confined dir w (tryAll (blocks.map (f.write host) ++ flushIf host flush f) w).2 := by
  refine tryAll_confined (fun call hcall w₁ h₁ => ?_) w (.refl w)
  rcases List.mem_append.mp hcall with hc | hc
  · obtain ⟨b, -, rfl⟩ := List.mem_map.mp hc
    exact FileIo.confined_write (h₁.linked hf) b
  · unfold flushIf at hc
    split_ifs at hc
    · rw [List.mem_singleton.mp hc]
      exact FileIo.confined_flush f w₁
    · simp at hc

lemma writeHeader_confined {f : FileIo} (hf : f.is_open = true → Linked dir w f.inode)
    (time_ns : UInt64) (type : UInt8) :
    Confined dir w (s.writeHeader host f time_ns type w).2 := by
  unfold writeHeader
  split_ifs with hopen
  · have hall : Confined dir w (tryAll (([(s.header time_ns type).encode] : List Bytes).map
        (f.write host) ++ flushIf host true f) w).2 := blocks_confined (hf hopen) true _
    change Confined dir w (if (tryAll (([(s.header time_ns type).encode] : List Bytes).map
      (f.write host) ++ flushIf host true f) w).1 = true then _ else _ : ℤ × World).2
    split_ifs
    · exact hall
    · exact hall
  · exact .refl w

/-- What `reopenFile` leaves behind, for a stream of records of the given size. -/
structure Reopened (dir : Path) (w : World) (size : UInt32) (r : Outcome × StreamWriter × World) :
    Prop where
  confined : Confined dir w r.2.2
  inside : Inside dir r.2.2 r.2.1
  /-- with a positive value both files are open -/
  index_open : r.1.positive = true → ∃ f, live r.2.1.index_ = some f
  data_open : r.1.positive = true → size = 0 → ∃ f, live r.2.1.data_ = some f

lemma reopenData_confined {file_name : Bytes} {index : FileIo} {time_ns : UInt64} {result : ℤ}
    (hs : Inside dir w s) (hindex : s.index_ = some index) (hopen : index.is_open = true)
    (hflat : w.tree.Flat dir) (hname : Candidate (s.fileName host time_ns) file_name) :
    Reopened dir w s.record_size_ (s.reopenData host file_name index time_ns result w) := by
  obtain ⟨b, rest, hb, hrel⟩ := candidate_digit hname dotData
  obtain rfl := hs.folder
  obtain ⟨hopened, hlinked⟩ := FileIo.confined_open host rest hb hflat
  simp only [reopenData, hrel]
  generalize FileIo.open_ host s.folder_ (b :: rest) w = o at hopened hlinked ⊢
  have hheader : Confined s.folder_ o.2
      (if o.1.is_open then s.writeHeader host o.1 time_ns kDataFile o.2 else (-EINVAL, o.2)).2 := by
    split_ifs
    · exact writeHeader_confined hlinked time_ns kDataFile
    · exact .refl o.2
  have hdata : 0 ≤ (if o.1.is_open then s.writeHeader host o.1 time_ns kDataFile o.2
      else (-EINVAL, o.2)).1 → o.1.is_open = true := by
    intro h
    by_contra hclosed
    rw [if_neg hclosed] at h
    exact absurd h (by decide : ¬ (0 : ℤ) ≤ -EINVAL)
  generalize (if o.1.is_open then s.writeHeader host o.1 time_ns kDataFile o.2
    else (-EINVAL, o.2)) = r at hheader hdata ⊢
  have hdataLinked : ∀ f, live (some o.1) = some f → Linked s.folder_ r.2 f.inode := by
    intro f hf
    obtain ⟨hof, hfopen⟩ := live_eq_some_iff.mp hf
    cases hof
    exact hheader.linked (hlinked hfopen)
  have hconf := hopened.trans hheader
  split_ifs with hneg
  · refine ⟨hconf, ⟨rfl, ?_, hdataLinked⟩, ?_, ?_⟩
    · intro f hf
      rw [live_close] at hf
      cases hf
    · intro hpos
      simp only [Outcome.positive_ret, decide_eq_true_eq] at hpos
      omega
    · intro hpos
      simp only [Outcome.positive_ret, decide_eq_true_eq] at hpos
      omega
  · have hnow := hconf.trans (.now host r.2)
    refine ⟨hnow, ⟨rfl, ?_, ?_⟩, ?_, ?_⟩
    · exact fun f hf => hnow.linked (hs.index f hf)
    · exact fun f hf => (Confined.now host r.2).linked (hdataLinked f hf)
    · exact fun _ => ⟨index, live_eq_some_iff.mpr ⟨hindex, hopen⟩⟩
    · exact fun _ _ => ⟨o.1, live_eq_some_iff.mpr ⟨rfl, hdata (not_lt.mp hneg)⟩⟩

lemma reopenAs_confined {file_name : Bytes} {time_ns : UInt64} (hs : Inside dir w s)
    (hflat : w.tree.Flat dir) (hname : Candidate (s.fileName host time_ns) file_name) :
    Reopened dir w s.record_size_ (s.reopenAs host file_name time_ns w) := by
  obtain ⟨b, rest, hb, hrel⟩ := candidate_digit hname dotIdx
  obtain rfl := hs.folder
  obtain ⟨hopened, hlinked⟩ := FileIo.confined_open host rest hb hflat
  simp only [reopenAs, hrel]
  generalize FileIo.open_ host s.folder_ (b :: rest) w = o at hopened hlinked ⊢
  have hnegative : ¬ (0 : ℤ) < -EINVAL := by decide
  by_cases hopen : o.1.is_open = true
  · rw [if_neg (not_not.mpr hopen)]
    have hheader : Confined s.folder_ o.2
        ({ s with index_ := some o.1 }.writeHeader host o.1 time_ns kIndexFile o.2).2 :=
      writeHeader_confined hlinked time_ns kIndexFile
    generalize { s with index_ := some o.1 }.writeHeader host o.1 time_ns kIndexFile o.2 = r
      at hheader ⊢
    have hconf := hopened.trans hheader
    have hin : Inside s.folder_ r.2 { s with index_ := some o.1 } := by
      refine ⟨rfl, fun f hf => ?_, fun f hf => hconf.linked (hs.data f hf)⟩
      obtain ⟨hof, -⟩ := live_eq_some_iff.mp hf
      cases hof
      exact hheader.linked (hlinked hopen)
    split_ifs with hfailed hsize
    · have hclosed : ¬ 0 < r.1 := not_lt.mpr hfailed
      refine ⟨hconf, ⟨rfl, fun f hf => ?_, hin.data⟩, ?_, ?_⟩
      · rw [live_close] at hf
        cases hf
      · exact fun hpos => absurd (by simpa using hpos) hclosed
      · exact fun hpos => absurd (by simpa using hpos) hclosed
    · have hflat' : r.2.tree.Flat s.folder_ := hconf.flat le_rfl hflat
      have hre : Reopened s.folder_ r.2 s.record_size_
        (reopenData host { s with index_ := some o.1 } file_name o.1 time_ns r.1 r.2) :=
          reopenData_confined hin rfl hopen hflat' hname
      exact ⟨hconf.trans hre.confined, hre.inside, hre.index_open, hre.data_open⟩
    · have hnow : Confined s.folder_ r.2 (r.2.now host).2 := .now host r.2
      have hin' := hin.mono hnow
      refine ⟨hconf.trans hnow, ⟨rfl, hin'.index, hin'.data⟩, fun _ => ⟨o.1, ?_⟩,
        fun _ h0 => absurd h0 hsize⟩
      exact live_eq_some_iff.mpr ⟨rfl, hopen⟩
  · rw [if_pos hopen]
    refine ⟨hopened, ⟨rfl, fun f hf => ?_, fun f hf => hopened.linked (hs.data f hf)⟩,
      ?_, ?_⟩
    · obtain ⟨hof, hfopen⟩ := live_eq_some_iff.mp hf
      cases hof
      exact absurd hfopen hopen
    · exact fun hpos => absurd (by simpa using hpos) hnegative
    · exact fun hpos => absurd (by simpa using hpos) hnegative

/-- **`reopenFile` keeps to the stream's folder.** -/
lemma reopenFile_confined {time_ns : UInt64} (hs : Inside dir w s) (hflat : w.tree.Flat dir) :
    Reopened dir w s.record_size_ (s.reopenFile host time_ns w) := by
  have hs' : Inside dir w { s with offset_ := 0 } := ⟨hs.folder, hs.index, hs.data⟩
  simp only [reopenFile]
  split
  · exact ⟨.refl w, hs', by simp, by simp⟩
  · exact ⟨.refl w, hs', by simp, by simp⟩
  · rename_i file_name hfound
    exact reopenAs_confined hs' hflat (searchName_found (Or.inl rfl) hfound).1

lemma closeFile_confined (host : Host) (hs : Inside dir w s) :
    Confined dir w (s.closeFile host w).2 ∧
      Inside dir (s.closeFile host w).2 (s.closeFile host w).1 := by
  obtain ⟨hidead, hddead⟩ := live_closeFile host s w
  refine ⟨.of_extends (closeFile_extends s w) (by simp), hs.folder, fun f hf =>
    ?_, fun f hf => ?_⟩
  · exact absurd (hidead.symm.trans hf) (by simp)
  · exact absurd (hddead.symm.trans hf) (by simp)

lemma inject_confined (h : s.inject host w = some w') : Confined dir w w' := by
  unfold inject at h
  split_ifs at h
  · cases h
    exact .called w
  · cases h
    exact .refl w

/-- A record of variable size goes to the two open files. -/
lemma commitRecord_confined (host : Host) {fi fd : FileIo} (flush : Bool) (time_ns : UInt64)
    (data : Bytes) (result : ℤ) (hs : Inside dir w s) (hi : live s.index_ = some fi)
    (hd : live s.data_ = some fd) :
    Confined dir w (s.commitRecord host flush time_ns data result w).2.2 ∧
      Inside dir (s.commitRecord host flush time_ns data result w).2.2
        (s.commitRecord host flush time_ns data result w).2.1 := by
  have hindex : s.index_.getD .unopened = fi := by rw [(live_eq_some_iff.mp hi).1]; rfl
  have hdata : s.data_.getD .unopened = fd := by rw [(live_eq_some_iff.mp hd).1]; rfl
  have hfirst : Confined dir w (tryAll (([toLE 8 time_ns.toNat,
      toLE 4 (UInt32.ofNat data.length).toNat, data.take (UInt32.ofNat data.length).toNat] :
      List Bytes).map (fd.write host) ++ flushIf host flush fd) w).2 :=
    blocks_confined (hs.data fd hd) flush _
  have hsecond : ∀ w₁, Confined dir w w₁ → Confined dir w (tryAll (([toLE 8 time_ns.toNat,
      toLE 4 s.offset_.toNat] : List Bytes).map (fi.write host) ++ flushIf host flush fi) w₁).2 :=
    fun w₁ h₁ => h₁.trans (blocks_confined (h₁.linked (hs.index fi hi)) flush _)
  simp only [commitRecord, hindex, hdata]
  split
  · exact ⟨hfirst, hs.mono hfirst⟩
  · split
    · have hthrown := hfirst.trans (.called _)
      exact ⟨hthrown, hs.mono hthrown⟩
    · rename_i w₁ hinj
      have hlast := hsecond w₁ (hfirst.trans (inject_confined hinj))
      split
      · exact ⟨hlast, hs.mono hlast⟩
      · exact ⟨hlast, hs.folder, (hs.mono hlast).index, (hs.mono hlast).data⟩

lemma writeVariable_confined (host : Host) {fi : FileIo} (flush : Bool) (time_ns : UInt64)
    (data : Bytes) (hs : Inside dir w s) (hflat : w.tree.Flat dir) (hsize : s.record_size_ = 0)
    (hi : live s.index_ = some fi) :
    Confined dir w (s.writeVariable host flush time_ns data w).2.2 ∧
      Inside dir (s.writeVariable host flush time_ns data w).2.2
        (s.writeVariable host flush time_ns data w).2.1 := by
  simp only [writeVariable]
  split
  · exact ⟨.refl w, hs⟩
  · rename_i fd hd
    split
    · obtain ⟨hclose, hin⟩ := closeFile_confined host hs
      have hre : Reopened dir (s.closeFile host w).2 s.record_size_
          ((s.closeFile host w).1.reopenFile host time_ns (s.closeFile host w).2) :=
        reopenFile_confined hin (hclose.flat le_rfl hflat)
      split
      · rename_i ret s₁ w₁ heq
        rw [heq] at hre
        have hconf := hclose.trans hre.confined
        split
        · exact ⟨hconf, hre.inside⟩
        · rename_i hret
          have hpos : (Outcome.ret ret).positive = true := by simpa using hret
          obtain ⟨fi', hi'⟩ := hre.index_open hpos
          obtain ⟨fd', hd'⟩ := hre.data_open hpos hsize
          obtain ⟨hcommit, hin'⟩ := commitRecord_confined host flush time_ns data ret
            hre.inside hi' hd'
          exact ⟨hconf.trans hcommit, hin'⟩
      · exact ⟨hclose.trans hre.confined, hre.inside⟩
    · exact commitRecord_confined host flush time_ns data 0 hs hi hd

/-- **Every operation of a stream keeps to its folder.** -/
theorem write_confined (host : Host) (time_ns : UInt64) (data : Bytes) (hs : Inside dir w s)
    (hflat : w.tree.Flat dir) :
    Confined dir w (s.write host time_ns data w).2.2 ∧
      Inside dir (s.write host time_ns data w).2.2 (s.write host time_ns data w).2.1 := by
  have hnow : Confined dir w (w.now host).2 := .now host w
  have hs' := hs.mono hnow
  simp only [write]
  split
  · exact ⟨.refl w, hs⟩
  · rename_i fi hi
    split
    · have hall : Confined dir (w.now host).2 (tryAll (([toLE 8 time_ns.toNat, data] :
          List Bytes).map (fi.write host) ++ flushIf host (s.flushDue host w) fi)
            (w.now host).2).2 :=
        blocks_confined (hs'.index fi hi) _ _
      have hall' := hnow.trans hall
      simp only [writeFixed]
      split
      · split
        · exact ⟨hall', hs.mono hall'⟩
        · exact ⟨hall', hs.mono hall'⟩
      · exact ⟨hnow, hs'⟩
    · rename_i hsize
      obtain ⟨hvar, hin⟩ := writeVariable_confined host (s.flushDue host w) time_ns data hs'
        hflat (not_not.mp hsize) hi
      exact ⟨hnow.trans hvar, hin⟩

end StreamWriter

/-! ## A folder -/

namespace Folder

variable {dir : Path} {w w' : World} {f : Folder}

/-- The folder's path is `dir`, and its streams keep to it. -/
structure Inside (dir : Path) (w : World) (f : Folder) : Prop where
  folder : f.folder_ = dir
  streams : ∀ e ∈ f.files_, StreamWriter.Inside dir w e.2

lemma writeTo_confined (host : Host) (request : LogRequest) {s : StreamWriter}
    (hf : Inside dir w f) (hs : StreamWriter.Inside dir w s) (hflat : w.tree.Flat dir) :
    Confined dir w (f.writeTo host s request w).2.2 ∧
      Inside dir (f.writeTo host s request w).2.2 (f.writeTo host s request w).2.1 := by
  obtain ⟨hconf, hin⟩ := StreamWriter.write_confined host request.time_ns request.data hs hflat
  refine ⟨hconf, hf.folder, fun e he => ?_⟩
  obtain ⟨e₀, he₀, rfl⟩ := List.mem_map.mp he
  by_cases hc : e₀.1 = request.channel
  · rw [if_pos hc]
    exact hin
  · rw [if_neg hc]
    exact (hf.streams e₀ he₀).mono hconf

lemma writeChannel_confined (host : Host) (request : LogRequest) (hf : Inside dir w f)
    (hflat : w.tree.Flat dir) :
    Confined dir w (f.writeChannel host request w).2.2 ∧
      Inside dir (f.writeChannel host request w).2.2 (f.writeChannel host request w).2.1 := by
  cases hlook : f.files_.lookup request.channel with
  | some s =>
      have hmem : (request.channel, s) ∈ f.files_ := by
        obtain ⟨l₁, l₂, heq, -⟩ := List.lookup_eq_some_iff.mp hlook
        rw [heq]
        simp
      simp only [writeChannel, hlook]
      exact writeTo_confined host request hf (hf.streams _ hmem) hflat
  | none =>
      have hfresh : StreamWriter.Inside dir w
          { folder_ := f.folder_, name_ := request.channel, record_size_ := request.size } :=
        ⟨hf.folder, nofun, nofun⟩
      have hre : StreamWriter.Reopened dir w request.size
          (({ folder_ := f.folder_ } : StreamWriter).openFile host request w) :=
        StreamWriter.reopenFile_confined hfresh hflat
      simp only [writeChannel, hlook]
      generalize ({ folder_ := f.folder_ } : StreamWriter).openFile host request w = o at hre ⊢
      have hadd : Inside dir o.2.2 { f with files_ := f.files_ ++ [(request.channel, o.2.1)] } := by
        refine ⟨hf.folder, fun e he => ?_⟩
        rcases List.mem_append.mp he with he | he
        · exact (hf.streams e he).mono hre.confined
        · rw [List.mem_singleton.mp he]
          exact hre.inside
      split
      · split
        · exact ⟨hre.confined, hadd⟩
        · obtain ⟨hconf, hin⟩ := writeTo_confined host request hadd hre.inside
            (hre.confined.flat le_rfl hflat)
          exact ⟨hre.confined.trans hconf, hin⟩
      · exact ⟨hre.confined, hadd⟩

/-- The folder's day does not change while it is written to. -/
lemma yyyymmdd_writeChannel (host : Host) (f : Folder) (request : LogRequest) (w : World) :
    (f.writeChannel host request w).2.1.yyyymmdd_ = f.yyyymmdd_ := by
  simp only [writeChannel]
  split
  · rfl
  · split
    · split
      · rfl
      · rfl
    · rfl

/-- Closing the writers of a folder leaves the files as they are. -/
lemma close_extends (host : Host) (f : Folder) (w : World) : w.Extends (f.close host w) [] := by
  unfold close
  induction f.files_ generalizing w with
  | nil => exact World.Extends.of_eq rfl rfl rfl
  | cons e es ih => exact (StreamWriter.closeFile_extends e.2 w).trans (ih _)

lemma folder_writeChannel (host : Host) (f : Folder) (request : LogRequest) (w : World) :
    (f.writeChannel host request w).2.1.folder_ = f.folder_ := by
  simp only [writeChannel]
  split
  · rfl
  · split
    · split <;> rfl
    · rfl

lemma create_directories_confined (host : Host) (dir : Path) (w : World) :
    Confined dir w (create_directories host dir w).2 := by
  unfold create_directories
  split
  · split_ifs
    · exact .called w
    · exact (Confined.mkdirs w).trans (.called _)
  · exact .called w
  · exact .called w

end Folder

/-! ## The backend -/

namespace FilesystemStorageBackend

variable (host : Host)

/-- The day directory of a timestamp. -/
def dayDir (root : Path) (time_ns : UInt64) : Path :=
  root ++ [toDec (host.cal.Time2YYYYMMDD time_ns)]

/-- The day directories have no subdirectories, and the active folder keeps to its day. -/
structure Inside (root : Path) (b : FilesystemStorageBackend) (w : World) : Prop where
  path : b.folder_path_ = root
  flat : ∀ time_ns, w.tree.Flat (dayDir host root time_ns)
  folder : b.folder_.yyyymmdd_ ≠ 0 →
    b.folder_.Inside (root ++ [toDec b.folder_.yyyymmdd_]) w

variable {host}

lemma close_confined {dir : Path} (f : Folder) (w : World) : Confined dir w (f.close host w) :=
  .of_extends (f.close_extends host w) (by simp)

/-- The day directory of a new folder. -/
lemma create_confined (host : Host) (root : Path) (time_ns : UInt64) (w : World) :
    let c := ({ folder_ := root } : Folder).create host time_ns w
    Confined (dayDir host root time_ns) w c.2.2 ∧ c.2.1.folder_ = dayDir host root time_ns ∧
      c.2.1.files_ = [] ∧
      (c.2.1.yyyymmdd_ ≠ 0 → c.2.1.yyyymmdd_ = host.cal.Time2YYYYMMDD time_ns) := by
  have hmk := Folder.create_directories_confined host (dayDir host root time_ns) w
  simp only [Folder.create]
  split
  · exact ⟨.refl w, rfl, rfl, fun _ => rfl⟩
  · split
    · exact ⟨hmk, rfl, rfl, fun _ => rfl⟩
    · exact ⟨hmk, rfl, rfl, fun _ => rfl⟩
    · exact ⟨hmk, rfl, rfl, fun h => absurd rfl h⟩

/-- A new folder's first write. -/
lemma newFolder_confined (host : Host) {root : Path} {w : World} (request : LogRequest)
    (hflat : w.tree.Flat (dayDir host root request.time_ns)) :
    let r := ({ folder_ := root } : Folder).write host request w
    Confined (dayDir host root request.time_ns) w r.2.2 ∧
      (r.2.1.yyyymmdd_ ≠ 0 → r.2.1.yyyymmdd_ = host.cal.Time2YYYYMMDD request.time_ns ∧
        r.2.1.Inside (dayDir host root request.time_ns) r.2.2) := by
  obtain ⟨hconf, hfolder, hfiles, hday⟩ := create_confined host root request.time_ns w
  simp only [Folder.write, if_true]
  generalize ({ folder_ := root } : Folder).create host request.time_ns w = c at *
  have hin : c.2.1.Inside (dayDir host root request.time_ns) c.2.2 :=
    ⟨hfolder, by simp [hfiles]⟩
  split
  · exact ⟨hconf, fun h => ⟨hday h, hin⟩⟩
  · exact ⟨hconf, fun h => ⟨hday h, hin⟩⟩
  · obtain ⟨hwrite, hin'⟩ := Folder.writeChannel_confined host request hin
      (hconf.flat le_rfl hflat)
    refine ⟨hconf.trans hwrite, fun h => ⟨?_, hin'⟩⟩
    rw [Folder.yyyymmdd_writeChannel] at h ⊢
    exact hday h

/-- **One request**: what it touches lies in its day directory. -/
lemma backend_confined {root : Path} {b : FilesystemStorageBackend} {w : World}
    (h : Inside host root b w) (request : LogRequest) :
    Confined (dayDir host root request.time_ns) w (b.write host request w).2.2 ∧
      Inside host root (b.write host request w).2.1 (b.write host request w).2.2 := by
  obtain ⟨rfl, hflat, hfolder⟩ := h
  have hlen : ∀ t t', (dayDir host b.folder_path_ t).length ≤
      (dayDir host b.folder_path_ t').length := fun t t' => by simp [dayDir]
  have hday := (host.cal.day_bounds request.time_ns).1
  by_cases hsame : b.folder_.sameDay host request.time_ns = true
  · have hd : b.folder_.yyyymmdd_ = host.cal.Time2YYYYMMDD request.time_ns := by
      simpa [Folder.sameDay] using hsame
    have hin : b.folder_.Inside (dayDir host b.folder_path_ request.time_ns) w := by
      rw [dayDir, ← hd]
      exact hfolder (by omega)
    obtain ⟨hconf, hin'⟩ := Folder.writeChannel_confined host request hin (hflat _)
    have hwrite : b.folder_.write host request w = b.folder_.writeChannel host request w :=
      if_neg (by omega)
    simp only [FilesystemStorageBackend.write, hsame, if_true, hwrite]
    refine ⟨hconf, rfl, fun t => hconf.flat (hlen _ _) (hflat t), fun _ => ?_⟩
    simp only [Folder.yyyymmdd_writeChannel, hd]
    exact hin'
  · have hclose : Confined (dayDir host b.folder_path_ request.time_ns) w
        (b.folder_.close host w) := close_confined b.folder_ w
    obtain ⟨hconf, hin⟩ := newFolder_confined host request
      (hclose.flat le_rfl (hflat request.time_ns))
    simp only [FilesystemStorageBackend.write, hsame, Bool.false_eq_true, if_false]
    have hall := hclose.trans hconf
    refine ⟨hall, rfl, fun t => hall.flat (hlen _ _) (hflat t), fun h => ?_⟩
    obtain ⟨hd, hin'⟩ := hin h
    rw [hd]
    exact hin'

end FilesystemStorageBackend

/-- A request goes to the storage. -/
def Storage.writeStep (host : Host) (x : Storage × World) (request : LogRequest) :
    Option (Storage × World) :=
  some (x.1.write host request x.2).2

end Tracebox
