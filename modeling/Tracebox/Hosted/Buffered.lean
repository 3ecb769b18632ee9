import Tracebox.Hosted.OnWorld
import Tracebox.Storage.Charges

/-!
# A storage that does not wedge

`usedBytes` and `deleteFolder` ask the system for the sizes of files, and the system does not see
the bytes that are still in the buffer of an open stream.  The bytes of a day come back to the
budget when the day is evicted, so the bytes that are in no file at that moment never do.  Two kinds
of call lose bytes: one that appends to files of a day that is gone, and one that evicts the day
that is being written while more bytes are in its buffers than were never charged.

* `Storage.writeBuffered` — `Storage::write` on a host on which sizes lag behind.
* `Storage.LosesBuffered` — the call evicts bytes that no file has yet.
* `Covered` — the budget is covered by what is available and what is on disk.
* `Covered.makeRoom`, `Covered.write` — **every other call keeps it so**.
* `write_not_refused` — **a storage without such calls never refuses a record that fits the
  budget**.
* `evicted_day_wedges` — a storage with such calls does.
-/

namespace Tracebox

open Bytes FilesystemStorageBackend

/-! ## Sizes that lag behind -/

/-- The bytes at the end of a file that are still in the buffer of the stream that wrote them.
`held` says how many that would be after these effects; a stream that closes a file empties its
buffer. -/
def Folder.lag (f : Folder) (held : List IoEvent → ℕ → ℕ) (w : World) (inode : ℕ) : ℕ :=
  if f.writes inode then held w.journal inode else 0

/-- The host as the storage finds it, with the buffers of its open streams. -/
def Storage.system (host : Host) (held : List IoEvent → ℕ → ℕ) (st : Storage) :
    System World :=
  World.buffered host (st.backend_.folder_.lag held)

/-- `Storage::write` where the sizes of files lag behind. -/
def Storage.writeBuffered (host : Host) (held : List IoEvent → ℕ → ℕ) (st : Storage)
    (request : LogRequest) (w : World) : Outcome × Storage × World :=
  System.Storage.write (st.system host held) st request w

/-- A request goes to the storage. -/
def Storage.bufferedStep (host : Host) (held : List IoEvent → ℕ → ℕ) (x : Storage × World)
    (request : LogRequest) : Option (Storage × World) :=
  some (x.1.writeBuffered host held request x.2).2

/-- What the system sees of a directory. -/
def FilesystemStorageBackend.seen (b : FilesystemStorageBackend)
    (held : List IoEvent → ℕ → ℕ)
    (w : World) (dir : Path) : ℕ := System.dirSize (b.folder_.lag held) w dir

/-- **The call evicts bytes that no file has yet.**  What the days before the active one free is not
enough, so that day goes as well, and its streams hold more bytes than the headers that were never
charged. -/
def Storage.LosesBuffered (held : List IoEvent → ℕ → ℕ) (st : Storage)
    (request : LogRequest) (w : World) : Prop :=
  st.backend_.Housed w ∧
    st.available_bytes_ + bytesBefore st.backend_ w st.backend_.folder_.yyyymmdd_ <
      maxRecordSize request.data.length ∧
    st.backend_.seen held w st.backend_.activeDir + st.backend_.folder_.headers <
      dirBytes w st.backend_.activeDir

instance (held : List IoEvent → ℕ → ℕ) (st : Storage) (request : LogRequest) (w : World) :
    Decidable (st.LosesBuffered held request w) :=
  inferInstanceAs (Decidable (_ ∧ _ ∧ _))

/-! ## The files of the active folder -/

/-- A file below the root has no other name. -/
def World.Sole (root : Path) (w : World) : Prop :=
  ∀ p q i, root <+: p → w.tree.lookup p = some (.file i) →
    w.tree.lookup q = some (.file i) → q = p

namespace FilesystemStorageBackend

variable {host : Host} {held : List IoEvent → ℕ → ℕ} {root : Path}
  {b : FilesystemStorageBackend}
  {w : World}

/-- The files that the active folder has open are in its directory and nowhere else. -/
def Alone (b : FilesystemStorageBackend) (w : World) : Prop :=
  ∀ i, b.folder_.writes i = true → b.folder_.yyyymmdd_ ≠ 0 ∧
    ∀ p, w.tree.lookup p = some (.file i) → ∃ name, p = b.activeDir ++ [name]

/-- Files that were opened in a directory below the root. -/
lemma alone_of_inside (hsole : w.Sole root) {f : Folder} {dir : Path} (hroot : root <+: dir)
    (hin : f.Inside dir w) : ∀ i, f.writes i = true → ∀ p, w.tree.lookup p =
      some (.file i) → ∃ name, p = dir ++ [name] := by
  intro i hi p hp
  obtain ⟨e, he, hwrites⟩ := List.any_eq_true.mp hi
  have hlinked : Linked dir w i := by
    rcases Bool.or_eq_true _ _ ▸ hwrites with hindex | hdata
    · obtain ⟨file, hfile, heq⟩ := (Option.any_eq_true _ _).mp hindex
      rw [← of_decide_eq_true heq]
      exact (hin.streams e he).index file hfile
    · obtain ⟨file, hfile, heq⟩ := (Option.any_eq_true _ _).mp hdata
      rw [← of_decide_eq_true heq]
      exact (hin.streams e he).data file hfile
  obtain ⟨name, hname⟩ := hlinked
  exact ⟨name, hsole _ _ i (hroot.trans (List.prefix_append _ _)) hname hp⟩

/-- The system sees no more than there is. -/
lemma seen_le (b : FilesystemStorageBackend) (held : List IoEvent → ℕ → ℕ) (w : World)
    (dir : Path) : b.seen held w dir ≤ dirBytes w dir := by
  rw [dirBytes_eq_weigh, seen, System.dirSize]
  refine List.sum_le_sum fun e _ => ?_
  obtain ⟨name, _ | i⟩ := e
  · exact le_rfl
  · exact Nat.sub_le _ _

/-- **The sizes of other days do not lag behind.** -/
lemma Alone.seen_eq (h : b.Alone w) (held : List IoEvent → ℕ → ℕ) {day : Bytes}
    (hday : b.folder_.yyyymmdd_ ≠ 0 → day ≠ toDec b.folder_.yyyymmdd_) :
    b.seen held w (b.folder_path_ ++ [day]) = dirBytes w (b.folder_path_ ++ [day]) := by
  rw [dirBytes_eq_weigh, seen, System.dirSize]
  refine congrArg List.sum (List.map_congr_left ?_)
  rintro ⟨name, _ | i⟩ hmem
  · rfl
  · have hwrites : ¬ b.folder_.writes i = true := by
      intro hi
      obtain ⟨hne, honly⟩ := h i hi
      obtain ⟨name', heq⟩ := honly _ (Tree.mem_children.mp hmem)
      rw [activeDir, List.append_assoc, List.append_assoc] at heq
      simp only [List.append_cancel_left_eq, List.cons_append, List.nil_append,
        List.cons.injEq] at heq
      exact hday hne heq.1
    simp only [Node.weigh, Folder.lag, if_neg hwrites, Nat.sub_zero]

/-- What the system sees of one day does not change when another one goes. -/
lemma seen_remove_all {root : Path} {folder name : Bytes} (h : name ≠ folder) :
    b.seen held (w.remove_all (root ++ [folder])) (root ++ [name]) =
      b.seen held w (root ++ [name]) := by
  simp only [seen, System.dirSize, World.tree_remove_all, children_remove_all_of_ne _ h,
    World.content_remove_all]
  rfl

/-- A new folder that has no day has no streams. -/
lemma newFolder_idle (host : Host) (root : Path) (request : LogRequest) (w : World)
    (h : (({ folder_ := root } : Folder).write host request w).2.1.yyyymmdd_ = 0) :
    (({ folder_ := root } : Folder).write host request w).2.1.files_ = [] := by
  obtain ⟨-, -, hfiles, -⟩ := create_confined host root request.time_ns w
  have hday : (({ folder_ := root } : Folder).create host request.time_ns w).1 = some true →
      (({ folder_ := root } : Folder).create host request.time_ns w).2.1.yyyymmdd_ ≠ 0 := by
    have hpos := (host.cal.day_bounds request.time_ns).1
    simp only [Folder.create]
    split
    · exact fun _ => hpos.ne'
    · split
      · exact fun hc => absurd hc (by simp)
      · exact fun _ => hpos.ne'
      · exact fun hc => absurd hc (by simp)
  simp only [Folder.write, if_true] at h ⊢
  generalize ({ folder_ := root } : Folder).create host request.time_ns w = c at hfiles hday h ⊢
  obtain ⟨_ | _ | _, f, w₁⟩ := c
  · exact hfiles
  · exact hfiles
  · simp only [Folder.yyyymmdd_writeChannel] at h
    exact absurd h (hday rfl)

/-- **The files of the active folder stay alone** while the folder is written to. -/
lemma backend_write_alone (hb : b.Active host root w) (halone : b.Alone w) (hsole : w.Sole root)
    {request : LogRequest} (hno : ¬ b.AppendsGone host request w) :
    (b.write host request w).2.1.Alone (b.write host request w).2.2 := by
  have hreaches := backend_write_reaches host (fun _ => True) b request w trivial
  have hsole' : (b.write host request w).2.2.Sole root := hreaches.one_name hsole
  obtain ⟨rfl, hflat, hfolder⟩ := hb
  by_cases hsame : b.folder_.sameDay host request.time_ns = true
  · have hpos := (host.cal.day_bounds request.time_ns).1
    have hday : b.folder_.yyyymmdd_ = host.cal.Time2YYYYMMDD request.time_ns :=
      of_decide_eq_true hsame
    have hne : b.folder_.yyyymmdd_ ≠ 0 := by omega
    have hdir : dayDir host b.folder_path_ request.time_ns = b.activeDir := by
      rw [activeDir, dayDir, hday]
    have hactive := hfolder hne
    have hwrite : b.folder_.write host request w = b.folder_.writeChannel host request w :=
      if_neg hne
    have hback : b.write host request w = ((b.folder_.writeChannel host request w).1,
        { b with folder_ := (b.folder_.writeChannel host request w).2.1 },
        (b.folder_.writeChannel host request w).2.2) := by
      simp only [FilesystemStorageBackend.write, hsame, if_true, hwrite]
    rw [hback] at hsole' ⊢
    rw [Alone, activeDir, Folder.yyyymmdd_writeChannel]
    by_cases hthere : w.tree.lookup b.activeDir = some .dir
    · have hin : b.folder_.Inside b.activeDir w := hactive.inside hthere
      obtain ⟨-, hin'⟩ := Folder.writeChannel_confined host request hin
        (by rw [← hdir]; exact hflat _)
      exact fun i hi => ⟨hne, alone_of_inside hsole' (List.prefix_append _ _) hin' i hi⟩
    · -- nothing is opened in a directory that is gone
      have hidle : ¬ b.folder_.HasOpen request.channel := fun hopen =>
        hno ⟨hsame, hopen, by rwa [hdir]⟩
      obtain ⟨-, hext, -, hwrites⟩ := Folder.writeChannel_gone host
        (show w.tree.lookup b.folder_.folder_ ≠ some .dir by rwa [hactive.folder]) hidle
      rw [hext.tree]
      exact fun i hi => halone i (hwrites i hi)
  · have hclose : Confined (dayDir host b.folder_path_ request.time_ns) w
        (b.folder_.close host w) := close_confined b.folder_ w
    obtain ⟨-, hin⟩ := newFolder_confined host request
      (hclose.flat le_rfl (hflat request.time_ns))
    have hidle := newFolder_idle host b.folder_path_ request (b.folder_.close host w)
    have hback : b.write host request w =
        ((({ folder_ := b.folder_path_ } : Folder).write host request (b.folder_.close host w)).1,
          { b with folder_ := (({ folder_ := b.folder_path_ } : Folder).write host request
            (b.folder_.close host w)).2.1 },
          (({ folder_ := b.folder_path_ } : Folder).write host request
            (b.folder_.close host w)).2.2) := by
      simp only [FilesystemStorageBackend.write, hsame, Bool.false_eq_true, if_false]
    rw [hback] at hsole' ⊢
    generalize ({ folder_ := b.folder_path_ } : Folder).write host request
      (b.folder_.close host w) = r at hin hidle hsole' ⊢
    by_cases hzero : r.2.1.yyyymmdd_ = 0
    · intro i hi
      simp only [Folder.writes, hidle hzero, List.any_nil, Bool.false_eq_true] at hi
    · obtain ⟨hday, hin'⟩ := hin hzero
      rw [Alone, activeDir, hday]
      exact fun i hi =>
        ⟨hday ▸ hzero, alone_of_inside hsole' (List.prefix_append _ _) hin' i hi⟩

end FilesystemStorageBackend

/-! ## The budget -/

open FilesystemStorageBackend

/-- **What is available and what is on disk cover the budget**, and the headers that were not
charged besides. -/
structure Covered (host : Host) (root : Path) (max_size : ℕ) (b : FilesystemStorageBackend)
    (available : ℕ) (w : World) : Prop where
  days : DayRoot root b w
  active : b.Active host root w
  distinct : b.folder_.Distinct
  sole : w.Sole root
  alone : b.Alone w
  budget : max_size + b.uncharged w ≤ available + b.usedBytes w

/-- In this state an eviction would not lose buffered bytes. -/
def Safe (held : List IoEvent → ℕ → ℕ) (b : FilesystemStorageBackend) (need available : ℕ)
    (w : World) : Prop :=
  b.Housed w → available + bytesBefore b w b.folder_.yyyymmdd_ < need →
    dirBytes w b.activeDir ≤ b.seen held w b.activeDir + b.folder_.headers

variable {host : Host} {held : List IoEvent → ℕ → ℕ} {root : Path}
  {max_size need available : ℕ}
  {b : FilesystemStorageBackend} {st : Storage} {w w' : World}

/-- The folder of the oldest day. -/
abbrev oldestDir (b : FilesystemStorageBackend) (w : World) : Path :=
  b.folder_path_ ++ [to_string (b.findOldest w)]

/-- What a call of `removeOldest` comes to. -/
lemma removeOldest_buffered {r : Option (Bool × ℕ)}
    (h : System.Backend.removeOldest (World.buffered host (b.folder_.lag held)) b w = (r, w')) :
    (r = none ∧ w' = w) ∨ (r = some (false, 0) ∧ w' = w ∧ b.findOldest w = kMaxDay) ∨
      (b.findOldest w ≠ kMaxDay ∧
        r = some (true, b.seen held w (oldestDir b w)) ∧
        b.deleteFolder (to_string (b.findOldest w)) w =
          some (dirBytes w (oldestDir b w), w')) := by
  rw [System.Backend.removeOldest, System.findOldest_eq] at h
  by_cases hroot : w.tree.lookup b.folder_path_ = some .dir
  · rw [if_pos hroot] at h
    by_cases hmax : b.findOldest w = kMaxDay
    · simp only [hmax, if_true, Prod.mk.injEq] at h
      exact Or.inr (Or.inl ⟨h.1.symm, h.2.symm, hmax⟩)
    · simp only [hmax, if_false, System.deleteFolder_eq] at h
      by_cases hdir : w.tree.lookup (b.folder_path_ ++ [to_string (b.findOldest w)]) = some .dir
      · simp only [hdir, if_true, Option.map_some, Prod.mk.injEq] at h
        obtain ⟨rfl, rfl⟩ := h
        exact Or.inr (Or.inr ⟨hmax, rfl, if_pos hdir⟩)
      · simp only [hdir, if_false, Option.map_none, Prod.mk.injEq] at h
        exact Or.inl ⟨h.1.symm, h.2.symm⟩
  · simp only [hroot, if_false, Prod.mk.injEq] at h
    exact Or.inl ⟨h.1.symm, h.2.symm⟩

lemma DayRoot.lt_of_housed (h : DayRoot root b w) (hhoused : b.Housed w) :
    b.folder_.yyyymmdd_ < 99999999 := by
  obtain ⟨n, hn, heq⟩ := h.canonical _ (mem_dayDirs.mpr hhoused.2)
  rwa [toDec_injective heq]

/-- What a deletion that is seen to free `freed` bytes leaves: the budget is covered, the next
deletion loses nothing either, no byte is counted twice, and the bytes before the active day are
accounted for while that day stays and were not enough when it goes. -/
structure Frees (held : List IoEvent → ℕ → ℕ) (host : Host) (root : Path) (max_size : ℕ)
    (b : FilesystemStorageBackend) (need available freed : ℕ) (w w' : World) : Prop where
  covered : Covered host root max_size b (available + freed) w'
  safe : Safe held b need (available + freed) w'
  total : available + freed + b.usedBytes w' ≤ available + b.usedBytes w
  stays : b.Housed w' → b.Housed w ∧ available + freed +
    bytesBefore b w' b.folder_.yyyymmdd_ = available + bytesBefore b w b.folder_.yyyymmdd_
  goes : b.Housed w → ¬ b.Housed w' → available + bytesBefore b w b.folder_.yyyymmdd_ < need

section Delete

variable (h : Covered host root max_size b available w) (hmax : b.findOldest w ≠ kMaxDay)
  (hdelete : b.deleteFolder (to_string (b.findOldest w)) w =
    some (dirBytes w (oldestDir b w), w'))

include h hmax hdelete

/-- All but the budget itself is kept whichever day goes. -/
lemma Covered.of_deleted (hneed : available < need) {available' : ℕ}
    (hbudget : max_size + b.uncharged w' ≤ available' + b.usedBytes w') :
    Covered host root max_size b available' w' := by
  have hone := Evicts.evict hneed hmax hdelete (.stop _ _)
  have hless : ∀ p n, w'.tree.lookup p = some n → w.tree.lookup p = some n := fun p n hp =>
    hone.lookup hp
  exact ⟨h.days.evict hone, hone.active h.active, h.distinct,
    fun p q i hp hi hq => h.sole p q i hp (hless _ _ hi) (hless _ _ hq),
    fun i hi => ⟨(h.alone i hi).1, fun p hp => (h.alone i hi).2 p (hless _ _ hp)⟩, hbudget⟩

/-- **The active day goes**: no day is before it, and its headers were never charged. -/
lemma Covered.delete_active (hsafe : Safe held b need available w) (hneed : available < need)
    (hhoused : b.Housed w)
    (hactive : to_string (b.findOldest w) = toDec b.folder_.yyyymmdd_) :
    Frees held host root max_size b need available (b.seen held w (oldestDir b w)) w w' := by
  have hused : b.usedBytes w = b.usedBytes w' + dirBytes w (oldestDir b w) :=
    usedBytes_deleteFolder hdelete
  have hw' : w' = w.remove_all (oldestDir b w) := (deleteFolder_eq_some hdelete).2.2
  have hseen := b.seen_le held w (oldestDir b w)
  have hdir : oldestDir b w = b.activeDir := by rw [oldestDir, hactive, activeDir]
  have hgone : w'.tree.lookup b.activeDir ≠ some .dir := by
    rw [hw', hdir, World.tree_remove_all, Tree.lookup_remove_all, if_pos List.prefix_rfl]
    simp
  have hheaders : b.uncharged w = b.folder_.headers := if_pos hhoused
  have hnone : b.uncharged w' = 0 := if_neg fun hstill => hgone hstill.2
  have hbudget := h.budget
  rcases deleteFolder_before (h.days.lt_of_housed hhoused) hmax hdelete hhoused.2 with
    ⟨-, hzero⟩ | ⟨hstill, -⟩
  · have hloss := hsafe hhoused (by omega)
    rw [hdir] at hused hseen ⊢
    exact { covered := h.of_deleted hmax hdelete hneed (by omega)
            safe := fun hstill => absurd hstill.2 hgone
            total := by omega
            stays := fun hstill => absurd hstill.2 hgone
            goes := fun _ _ => by omega }
  · exact absurd hstill hgone

/-- **Another day goes** while the active one is there: it is seen as it is. -/
lemma Covered.delete_other (hsafe : Safe held b need available w) (hneed : available < need)
    (hhoused : b.Housed w)
    (hactive : to_string (b.findOldest w) ≠ toDec b.folder_.yyyymmdd_) :
    Frees held host root max_size b need available (b.seen held w (oldestDir b w)) w w' := by
  have hused : b.usedBytes w = b.usedBytes w' + dirBytes w (oldestDir b w) :=
    usedBytes_deleteFolder hdelete
  have hw' : w' = w.remove_all (oldestDir b w) := (deleteFolder_eq_some hdelete).2.2
  have hsame : b.seen held w (oldestDir b w) = dirBytes w (oldestDir b w) :=
    h.alone.seen_eq held fun _ => hactive
  have hstill : b.Housed w' := by
    refine ⟨hhoused.1, ?_⟩
    rw [hw', World.tree_remove_all, Tree.lookup_remove_all, if_neg]
    · exact hhoused.2
    · rw [activeDir, List.prefix_append_right_inj]
      exact fun hpre => hactive (by simpa using hpre)
  have hkept : b.uncharged w' = b.uncharged w := (if_pos hstill).trans (if_pos hhoused).symm
  have hbudget := h.budget
  rcases deleteFolder_before (h.days.lt_of_housed hhoused) hmax hdelete hhoused.2 with
    ⟨hgone, -⟩ | ⟨-, hbytes⟩
  · exact absurd hstill.2 hgone
  · change bytesBefore b w b.folder_.yyyymmdd_ =
      bytesBefore b w' b.folder_.yyyymmdd_ + dirBytes w (oldestDir b w) at hbytes
    rw [hsame]
    refine { covered := h.of_deleted hmax hdelete hneed (by omega)
             safe := fun _ hless => ?_
             total := by omega
             stays := fun _ => ⟨hhoused, by omega⟩
             goes := fun _ hgone => absurd hstill hgone }
    have hloss := hsafe hhoused (by omega)
    rwa [hw', activeDir, dirBytes_remove_all (Ne.symm hactive),
      seen_remove_all (Ne.symm hactive)]

/-- A day goes while the active one is not there. -/
lemma Covered.delete_unhoused (hneed : available < need) (hhoused : ¬ b.Housed w) :
    Frees held host root max_size b need available (b.seen held w (oldestDir b w)) w w' := by
  have hused : b.usedBytes w = b.usedBytes w' + dirBytes w (oldestDir b w) :=
    usedBytes_deleteFolder hdelete
  have hone := Evicts.evict hneed hmax hdelete (.stop _ _)
  have hgone : ¬ b.Housed w' := fun hstill => hhoused ⟨hstill.1, hone.lookup hstill.2⟩
  have hkept : b.uncharged w' = 0 := if_neg hgone
  have hsame : b.seen held w (oldestDir b w) = dirBytes w (oldestDir b w) := by
    refine h.alone.seen_eq held fun hne heq => hhoused ⟨hne, ?_⟩
    rw [activeDir, ← heq]
    exact (deleteFolder_eq_some hdelete).1
  have hbudget := h.budget
  rw [hsame]
  exact { covered := h.of_deleted hmax hdelete hneed (by omega)
          safe := fun hstill => absurd hstill hgone
          total := by omega
          stays := fun hstill => absurd hstill hgone
          goes := fun hthere => absurd hthere hhoused }

/-- **One deletion** keeps the budget covered where it loses no buffered bytes.  The active day goes
only when the days before it are not enough. -/
lemma Covered.delete (hsafe : Safe held b need available w) (hneed : available < need) :
    Frees held host root max_size b need available (b.seen held w (oldestDir b w)) w w' := by
  by_cases hhoused : b.Housed w
  · by_cases hactive : to_string (b.findOldest w) = toDec b.folder_.yyyymmdd_
    · exact h.delete_active hmax hdelete hsafe hneed hhoused hactive
    · exact h.delete_other hmax hdelete hsafe hneed hhoused hactive
  · exact h.delete_unhoused hmax hdelete hneed hhoused

end Delete

/-- How the loop of `Storage::write` ends when it loses no bytes: with the budget covered, and with
no room only for a record that is larger than the budget. -/
def LoopEnd (host : Host) (root : Path) (max_size need : ℕ) (b : FilesystemStorageBackend)
    (available : ℕ) (w : World) : System.Storage.Room World → Prop
  | .done available' w' => need ≤ available' ∧ Covered host root max_size b available' w' ∧
      available' + b.usedBytes w' ≤ available + b.usedBytes w ∧
      (b.Housed w → ¬ b.Housed w' → available + bytesBefore b w b.folder_.yyyymmdd_ < need)
  | .full available' w' => Covered host root max_size b available' w' ∧ max_size < need
  | .thrown available' w' => Covered host root max_size b available' w'
  | .hangs => True

/-- **The loop of `Storage::write`** keeps the budget covered where it loses no buffered bytes. -/
lemma Covered.makeRoom {fuel : ℕ} :
    ∀ {available : ℕ} {w : World} {room : System.Storage.Room World},
    Covered host root max_size b available w → available + b.usedBytes w < 2 ^ 64 →
    Safe held b need available w →
    System.Storage.makeRoom (World.buffered host (b.folder_.lag held)) b need fuel available w =
      room → LoopEnd host root max_size need b available w room := by
  induction fuel with
  | zero =>
      rintro available w room _ _ _ rfl
      trivial
  | succ fuel ih =>
      intro available w room h hcount hsafe hroom
      rw [System.Storage.makeRoom] at hroom
      by_cases henough : need ≤ available
      · rw [if_pos henough] at hroom
        rw [← hroom]
        exact ⟨henough, h, le_rfl, fun hthere hgone => absurd hthere hgone⟩
      rw [if_neg henough] at hroom
      obtain ⟨⟨r, w₁⟩, hr⟩ : ∃ r, System.Backend.removeOldest
        (World.buffered host (b.folder_.lag held)) b w = r := ⟨_, rfl⟩
      rw [hr] at hroom
      rcases removeOldest_buffered hr with
        ⟨rfl, rfl⟩ | ⟨rfl, rfl, hmax⟩ | ⟨hmax, rfl, hdelete⟩
      · rw [← hroom]
        exact h
      · -- no day is left, so all of the budget is available
        have hzero := h.days.usedBytes_of_none hmax
        have hbudget := h.budget
        rw [← hroom]
        exact ⟨h, by omega⟩
      · have hfrees := h.delete hmax hdelete hsafe (not_le.mp henough)
        have hsum := hfrees.total
        simp only at hroom
        rw [Nat.mod_eq_of_lt (by omega)] at hroom
        have hrest := ih hfrees.covered (by omega) hfrees.safe hroom
        cases room with
        | done available' w' =>
            obtain ⟨hneed, hcovered', hsum', hgone'⟩ := hrest
            refine ⟨hneed, hcovered', hsum'.trans hsum, fun hthere hnot => ?_⟩
            by_cases hthere₁ : b.Housed w₁
            · have hless := hgone' hthere₁ hnot
              have hsame := (hfrees.stays hthere₁).2
              omega
            · exact hfrees.goes hthere hthere₁
        | full available' w' => exact hrest
        | thrown available' w' => exact hrest
        | hangs => trivial

/-- The condition on the state before the call says what happens after the eviction. -/
lemma not_appendsGone {request : LogRequest} {available' : ℕ}
    (hno : ¬ st.AppendsUnlinked host request w)
    (hneed : maxRecordSize request.data.length ≤ available')
    (hsum : available' + st.backend_.usedBytes w' ≤ st.available_bytes_ + st.backend_.usedBytes w)
    (hgone : st.backend_.Housed w → ¬ st.backend_.Housed w' →
      st.available_bytes_ + bytesBefore st.backend_ w st.backend_.folder_.yyyymmdd_ <
        maxRecordSize request.data.length) :
    ¬ st.backend_.AppendsGone host request w' := by
  rintro ⟨hsame, hopen, hdir⟩
  have hpos := (host.cal.day_bounds request.time_ns).1
  have hday : st.backend_.folder_.yyyymmdd_ = host.cal.Time2YYYYMMDD request.time_ns :=
    of_decide_eq_true hsame
  have hactive : st.backend_.activeDir = dayDir host st.backend_.folder_path_ request.time_ns := by
    rw [activeDir, dayDir, hday]
  refine hno ⟨hsame, hopen, by omega, ?_⟩
  by_cases hthere : w.tree.lookup (dayDir host st.backend_.folder_path_ request.time_ns) = some .dir
  · right
    rw [← hday]
    exact hgone ⟨by omega, by rwa [hactive]⟩ fun hstill =>
      hdir (by rw [← hactive]; exact hstill.2)
  · exact Or.inl hthere

lemma Safe.of_not_loses {request : LogRequest} (h : ¬ st.LosesBuffered held request w) :
    Safe held st.backend_ (maxRecordSize request.data.length) st.available_bytes_ w :=
  fun hhoused hless => not_lt.mp fun hloss => h ⟨hhoused, hless, hloss⟩

/-- **A write to the backend keeps the budget covered**, unless it appends to files that are
gone. -/
lemma Covered.writeToBackend (h : Covered host root max_size st.backend_ available w)
    (hcount : available + st.backend_.usedBytes w < 2 ^ 64) {request : LogRequest}
    (hdata : request.data.length < 2 ^ 30)
    (hneed : maxRecordSize request.data.length ≤ available)
    (hno : ¬ st.backend_.AppendsGone host request w) :
    Covered host root max_size (st.writeToBackend host available request w).2.1.backend_
      (st.writeToBackend host available request w).2.1.available_bytes_
      (st.writeToBackend host available request w).2.2 := by
  obtain ⟨hdistinct, hcharged⟩ := backend_write_charged h.active h.distinct
    (by omega : request.data.length < 2 ^ 31) hno
  have hreaches := backend_write_reaches host (fun _ => True) st.backend_ request w trivial
  have hall : ∀ left, available ≤ left + (st.backend_.write host request w).1.charged →
      Covered host root max_size (st.backend_.write host request w).2.1 left
        (st.backend_.write host request w).2.2 := fun left hleft =>
    { days := h.days.backend_write request
      active := (backend_write_active h.active hno).1
      distinct := hdistinct
      sole := hreaches.one_name h.sole
      alone := backend_write_alone h.active h.alone h.sole hno
      budget := by
        have hbudget := h.budget
        have hsame : (st.backend_.write host request w).2.1.usedBytes
            (st.backend_.write host request w).2.2 =
              st.backend_.usedBytes (st.backend_.write host request w).2.2 := by
          simp only [usedBytes, dayDirs, folder_path_write]
        omega }
  have hreports := fun v => backend_write_reports host (v := v)
    (fun hday => (h.active.folder hday).issued) (by omega : request.data.length < 2 ^ 31)
  simp only [Storage.writeToBackend]
  generalize st.backend_.write host request w = r at hall hreports ⊢
  obtain ⟨out, b', w'⟩ := r
  cases out with
  | ret v =>
      obtain ⟨-, hle, -⟩ := hreports v rfl
      rw [maxRecordSize_of_lt (by omega)] at hneed
      refine hall _ ?_
      have hv : (Outcome.ret v).charged = v.toNat := rfl
      simp only [hv]
      split_ifs with hpos
      · rw [Retention.counter_sub (hle.trans hneed) (by omega)]
        omega
      · omega
  | thrown => exact hall _ (Nat.le_add_right _ _)
  | hangs => exact hall _ (Nat.le_add_right _ _)

/-- **A call that loses no bytes keeps the budget covered.** -/
lemma Covered.write (h : Covered host root max_size st.backend_ st.available_bytes_ w)
    (hcount : st.Countable w) {request : LogRequest} (hdata : request.data.length < 2 ^ 30)
    (hno : ¬ st.AppendsUnlinked host request w) (hkeeps : ¬ st.LosesBuffered held request w) :
    Covered host root max_size (st.writeBuffered host held request w).2.1.backend_
      (st.writeBuffered host held request w).2.1.available_bytes_
      (st.writeBuffered host held request w).2.2 := by
  obtain ⟨room, hroom⟩ : ∃ room, System.Storage.makeRoom (st.system host held) st.backend_
    (maxRecordSize request.data.length) ((st.system host held).size w + 1) st.available_bytes_ w =
      room := ⟨_, rfl⟩
  have hloop := h.makeRoom hcount (Safe.of_not_loses hkeeps) hroom
  rw [Storage.writeBuffered, System.Storage.write, hroom]
  cases room with
  | done available' w' =>
      obtain ⟨hneed, hcovered, hsum, hgone⟩ := hloop
      rw [Storage.Countable] at hcount
      rw [System.Storage.afterLoop, Storage.system, System.writeToBackend_eq]
      exact hcovered.writeToBackend (by omega) hdata hneed (not_appendsGone hno hneed hsum hgone)
  | full available' w' => exact hloop.1
  | thrown available' w' => exact hloop
  | hangs => exact h

/-- **A record that fits the budget is not refused** while the budget is covered. -/
lemma Covered.write_ne_zero (h : Covered host root max_size st.backend_ st.available_bytes_ w)
    (hcount : st.Countable w) {request : LogRequest} (hdata : request.data.length < 2 ^ 30)
    (hneed : maxRecordSize request.data.length ≤ max_size)
    (hkeeps : ¬ st.LosesBuffered held request w) :
    (st.writeBuffered host held request w).1 ≠ .ret 0 := by
  obtain ⟨room, hroom⟩ : ∃ room, System.Storage.makeRoom (st.system host held) st.backend_
    (maxRecordSize request.data.length) ((st.system host held).size w + 1) st.available_bytes_ w =
      room := ⟨_, rfl⟩
  have hloop := h.makeRoom hcount (Safe.of_not_loses hkeeps) hroom
  rw [Storage.writeBuffered, System.Storage.write, hroom]
  cases room with
  | done available' w' =>
      obtain ⟨-, hcovered, -⟩ := hloop
      rw [System.Storage.afterLoop, Storage.system, System.writeToBackend_eq,
        outcome_writeToBackend]
      intro hzero
      exact (backend_write_reports host (fun hday => (hcovered.active.folder hday).issued)
        (by omega : request.data.length < 2 ^ 31) hzero).1 rfl
  | full available' w' => exact absurd hneed (not_le.mpr hloop.2)
  | thrown available' w' =>
      intro h
      cases h
  | hangs =>
      intro h
      cases h

/-- An empty root is covered. -/
lemma covered_of_empty (host : Host) {w₀ : World} (hempty : EmptyRoot root w₀) :
    Covered host root max_size (FilesystemStorageBackend.make root) max_size w₀ where
  days := ⟨rfl, hempty.dir, fun name hname => by
    have hnone := hempty.empty (root ++ [name]) (List.prefix_append _ _) (by simp)
    exact absurd (mem_dayDirs.mp hname) (by simp [FilesystemStorageBackend.make, hnone])⟩
  active := by
    refine ⟨rfl, fun t name hname => ?_, fun hday => absurd rfl hday⟩
    rw [hempty.empty _ (by simp [dayDir]) (by simp [dayDir])] at hname
    cases hname
  distinct := List.nodup_nil
  sole := fun p q i hp hi _ => absurd hi (hempty.noFiles.below p i hp)
  alone := fun i hi => by cases hi
  budget := by
    have hnone : (FilesystemStorageBackend.make root).uncharged w₀ = 0 :=
      if_neg fun hhoused => hhoused.1 rfl
    omega

/-- **A storage does not wedge as long as no call loses bytes.**  In every state that a run of such
calls from an empty root reaches, whatever comes of its calls to the filesystem and however far the
sizes of files lag behind, a request whose record fits the budget is not refused.  The available
bytes and those on disk have to be few enough to be added up. -/
theorem write_not_refused (host : Host) (held : List IoEvent → ℕ → ℕ) {w₀ : World}
    (hempty : EmptyRoot root w₀) (hmax : max_size < 2 ^ 31) {requests : List LogRequest}
    (hdata : ∀ request ∈ requests, request.data.length < 2 ^ 30) :
    ∃ st₀, Storage.make root max_size w₀ = some (st₀, w₀) ∧
      (Machine.Throughout (Storage.bufferedStep host held) (fun (x : Storage × World) request =>
          x.1.Countable x.2 ∧ ¬ x.1.AppendsUnlinked host request x.2 ∧
            ¬ x.1.LosesBuffered held request x.2) (st₀, w₀) requests →
        ∀ x, Machine.run (Storage.bufferedStep host held) (st₀, w₀) requests = some x →
          x.1.Countable x.2 → ∀ request : LogRequest, request.data.length < 2 ^ 30 →
            maxRecordSize request.data.length ≤ max_size →
              ¬ x.1.LosesBuffered held request x.2 →
              (x.1.writeBuffered host held request x.2).1 ≠ .ret 0) := by
  refine ⟨_, make_of_empty hempty hmax,
    fun hthrough x hrun hcount request hlen hneed hkeeps => ?_⟩
  have hstep : ∀ (y : Storage × World) (request : LogRequest) (y' : Storage × World),
      Covered host root max_size y.1.backend_ y.1.available_bytes_ y.2 →
      ((y.1.Countable y.2 ∧ ¬ y.1.AppendsUnlinked host request y.2 ∧
        ¬ y.1.LosesBuffered held request y.2) ∧ request.data.length < 2 ^ 30) →
      Storage.bufferedStep host held y request = some y' →
      Covered host root max_size y'.1.backend_ y'.1.available_bytes_ y'.2 := by
    rintro y request y' hy ⟨⟨hcount, hno, hkeeps⟩, hlen⟩ hy'
    have heq : (y.1.writeBuffered host held request y.2).2 = y' := Option.some.inj hy'
    rw [← heq]
    exact hy.write hcount hlen hno hkeeps
  have hx : Covered host root max_size x.1.backend_ x.1.available_bytes_ x.2 :=
    Machine.run_invariant hstep (covered_of_empty host hempty) (hthrough.and_action hdata) hrun
  exact hx.write_ne_zero hcount hlen hneed hkeeps

/-- The bytes that were appended to a file since it was last flushed. -/
def unflushed (journal : List IoEvent) (inode : ℕ) : ℕ :=
  journal.foldl (fun n e => match e with
    | .append i bytes => if i = inode then n + bytes.length else n
    | .flush i => if i = inode then 0 else n) 0

/-- A record of the next day takes the place of the first one, of which `29` bytes are still in
buffers when its day is evicted. -/
theorem write_not_refused_second :
    let hello : LogRequest := ⟨ascii "a", 0, ascii "hello", 1704067200000000000⟩
    let next : LogRequest := ⟨ascii "a", 0, ascii "hello", 1704153600000000000⟩
    ∃ st x, Storage.make [ascii "r"] (150 : ℕ)
      (.bare [ascii "r"]) = some (st, .bare [ascii "r"]) ∧
      Machine.run (Storage.bufferedStep .january unflushed) (st, .bare [ascii "r"]) [hello] =
        some x ∧
      x.1.backend_.usedBytes x.2 = 127 ∧
      x.1.backend_.seen unflushed x.2 x.1.backend_.activeDir = 98 ∧
      (x.1.writeBuffered .january unflushed next x.2).1 ≠ .ret 0 := by
  intro hello next
  have hlen : hello.data.length < 2 ^ 30 := by decide +kernel
  obtain ⟨st, hmake, hwrite⟩ := write_not_refused .january unflushed emptyRoot_bare
    (by norm_num : 150 < 2 ^ 31) (by simpa using hlen : ∀ request ∈ [hello], _)
  have hfacts : ∀ x ∈ Storage.make [ascii "r"] ((150 : ℕ) : ℤ) (.bare [ascii "r"]),
      let y := (x.1.writeBuffered .january unflushed hello x.2).2
      x.1.available_bytes_ + x.1.backend_.usedBytes x.2 = 150 ∧
        x.1.backend_.folder_.sameDay .january hello.time_ns = false ∧
        ¬ x.1.LosesBuffered unflushed hello x.2 ∧
        y.1.available_bytes_ + y.1.backend_.usedBytes y.2 = 248 ∧
        y.1.backend_.usedBytes y.2 = 127 ∧
        y.1.backend_.seen unflushed y.2 y.1.backend_.activeDir = 98 ∧
        ¬ y.1.LosesBuffered unflushed next y.2 := by
    decide +kernel
  obtain ⟨hstart, hsame, hkeeps, hend, hused, hseen, hkeeps'⟩ := hfacts _ hmake
  have hneed : maxRecordSize next.data.length ≤ 150 := by decide +kernel
  have hnext : next.data.length < 2 ^ 30 := by decide +kernel
  refine ⟨st, _, hmake, rfl, hused, hseen,
    hwrite ⟨⟨?_, ?_, hkeeps⟩, trivial⟩ _ rfl ?_ next hnext hneed hkeeps'⟩
  · rw [Storage.Countable, hstart]
    norm_num
  · rintro ⟨hday, -⟩
    rw [hsame] at hday
    cases hday
  · rw [Storage.Countable, hend]
    norm_num

/-- A record of `75` bytes needs the whole budget of `197` bytes.  The second one of a day evicts
the day of the first one and goes to the files that are gone with it; the bytes it is charged for
never come back, and every later record is refused.  When it is of another day and what was written
is still in the buffers, the eviction frees one byte too few, and the record is refused itself. -/
theorem evicted_day_wedges :
    let r : LogRequest := ⟨ascii "a", 0, List.replicate 75 0, 1704067200000000000⟩
    let next : LogRequest := ⟨ascii "a", 0, List.replicate 75 0, 1704153600000000000⟩
    let outcome := fun held requests (request : LogRequest) =>
      (Storage.make [ascii "r"] 197 (.bare [ascii "r"])).bind fun x =>
        (Machine.run (Storage.bufferedStep .january held) x requests).map fun y =>
          (y.1.writeBuffered .january held request y.2).1
    maxRecordSize r.data.length = 197 ∧ maxRecordSize next.data.length = 197 ∧
      outcome (fun _ _ => 0) [r] r = some (.ret 99) ∧
      outcome (fun _ _ => 0) [r, r] r = some (.ret 0) ∧
      outcome unflushed [r] next = some (.ret 0) := by
  decide +kernel

end Tracebox
