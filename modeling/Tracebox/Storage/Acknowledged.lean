import Tracebox.Storage.Availability
import Tracebox.Storage.Shelves

/-!
# Records that were acknowledged

A positive return value of `Storage::write` says that the record was appended.  It does not say that
the record can be found: the folder that is being written keeps its open handles when its directory
is evicted.

* `Reachable` — a reader finds the record in an index file of the directory.
* `Filed`, `Tended` — as long as the directory of the active folder is there, the files of its
  writers are in it and hold what was written.  No eviction and no write changes that.
* `backend_write_there` — a record that is reported goes to a directory that is there, or to files
  of one that is gone.
* `backend_write_tended` — a record goes to a file that can be reached or to one that is gone.
* `acknowledged_iff` — **a record that was acknowledged can be read exactly when its call did not
  append to files of a day that is gone**, in every run and from every state of the root.
* `acknowledged_record_lost` — the second record of a day takes the budget of the first one, and
  with it the directory of both.
-/

namespace Tracebox

open Bytes FilesystemStorageBackend

/-- **A reader finds the record**: the directory is there and has an index file from which the
record is returned. -/
def Reachable (dir : Path) (r : Record) (w : World) : Prop :=
  w.tree.lookup dir = some .dir ∧ ∃ leaf inode k,
    w.tree.lookup (StreamWriter.indexPath dir leaf) = some (.file inode) ∧
      ∀ overrun, ((StreamReader.make (w.view (fun _ i => w.content i) overrun)
        (StreamWriter.indexPath dir leaf)).read k).1 = some r.piece

/-- A record on a shelf that is where it belongs can be read. -/
lemma Shelved.reachable {w : World} {log : List (ℕ × Record)}
    {pairs : List FilePair} {dir : Path}
    (h : Shelved w log pairs) (hdir : w.tree.lookup dir = some .dir) {p : FilePair}
    (hp : p ∈ pairs) (hplaced : p.Placed dir) {r : Record} (hr : r ∈ p.stream.records)
    (htime : r.time_ns ≠ 0)
    (hindex : p.stream.record_size ≠ 0 → p.stream.index.length < 2 ^ 32) :
    Reachable dir r w := by
  obtain ⟨k, hk, hget⟩ := List.mem_iff_getElem.mp hr
  have hfits := (h.sound p hp).fits hplaced.short hplaced.nul hindex
  have hl := h.linked p hp
  have hpath : p.indexPath = StreamWriter.indexPath dir p.leaf := by
    rw [FilePair.indexPath, hplaced.dir]
  refine ⟨hdir, p.leaf, p.index, k, ?_, fun overrun => ?_⟩
  · rw [← hpath]
    exact (hl.index _).mpr rfl
  · have hread := FilePair.reads_whole overrun (h.kept p hp) hl hfits hplaced.index (fun _ => k)
      (fun _ => r) [()] fun _ _ => ⟨by rw [List.getElem?_eq_getElem hk, hget], htime⟩
    rw [← hpath]
    simpa [StreamReader.reads] using hread

/-! ## The active folder -/

namespace Folder

variable {host : Host} {w w' : World} {f : Folder} {request : LogRequest}

/-- The index file of fixed-size records that the channel has open stays below `2 ^ 32` bytes. -/
def IndexFits (f : Folder) (request : LogRequest) (w : World) : Prop :=
  ∀ s file, f.files_.lookup request.channel = some s →
    StreamWriter.live s.index_ = some file →
    s.record_size_ ≠ 0 → (w.content file.inode).length + 8 + request.data.length < 2 ^ 32

/-- As long as the folder's directory is there, the files of its writers are in it. -/
def Filed (w : World) (f : Folder) : Prop :=
  w.tree.lookup f.folder_ = some .dir → ∃ log pairs, Shelved w log pairs ∧
    f.Stocked f.folder_ pairs ∧ ∀ p ∈ pairs, p.Placed f.folder_

/-- The record of a write that was reported is in one of the pairs. -/
lemma Wrote.record {pairs pairs' : List FilePair} {log : List (ℕ × Record)} {out : Outcome}
    (h : Wrote host f request w pairs out w' pairs') (hr : request.Proper)
    (hp : Shelved w log pairs) (hfit : f.IndexFits request w) (hout : out.positive = true) :
    ∃ p ∈ pairs', request.record ∈ p.stream.records ∧
      (p.stream.record_size ≠ 0 → p.stream.index.length < 2 ^ 32) := by
  cases h with
  | refused hno => exact absurd hout (by simp [hno])
  | @appended s p hout hlook hmem hdir hchannel hs e hoffset hsize =>
      have hbump : Books.bump p.index request.record p = p.push request.record := if_pos rfl
      refine ⟨_, List.mem_map_of_mem hmem, ?_, ?_⟩
      · rw [hbump]
        exact List.mem_append_right _ (List.mem_singleton_self _)
      · rw [hbump]
        intro (hne : p.stream.record_size ≠ 0)
        have hlive : StreamWriter.live s.index_ = some ⟨p.index, true⟩ := by rw [hs.index]; rfl
        have hlen := hfit s _ hlook hlive (by rw [hs.size]; exact hne)
        rw [(hp.kept p hmem).content_index] at hlen
        have hblock : (p.stream.indexBlock (request.record, p.stream.endOffset)).length =
            8 + request.data.length := by
          rw [Stream.length_indexBlock fun _ => hsize hne, Stream.entrySize, if_neg hne, hsize hne]
        change (p.stream.push request.record).index.length < 2 ^ 32
        rw [Stream.index_push, List.length_append, hblock]
        omega
  | @opened s s' q leaf hname hfolder ho hsize =>
      rw [if_pos hout] at ho
      refine ⟨_, List.mem_append_right _ (List.mem_singleton_self _), ?_, ?_⟩
      · rw [if_pos hout]
        exact List.mem_singleton_self _
      · rw [if_pos hout]
        intro (hne : s.record_size_ ≠ 0)
        have hlen := hsize hout hne
        have hdata := hr.data
        change (s.stream request.time_ns [request.record]).index.length < 2 ^ 32
        rw [Stream.length_index fun _ r hr => by rw [List.mem_singleton.mp hr]; exact hlen]
        simp only [StreamWriter.stream, Stream.entrySize, hne, if_false, List.length_singleton,
          sizeofLogFileHeader]
        omega

/-- **A write to a folder whose directory is there**: the folder stays filed, and a record that is
reported can be read. -/
lemma writeChannel_filed (hn : host.NeverFails) (hquiet : f.folder_.Quiet) (hr : request.Proper)
    (hf : f.Filed w) (hthere : w.tree.lookup f.folder_ = some .dir) :
    (f.writeChannel host request w).2.1.Filed (f.writeChannel host request w).2.2 ∧
      ((f.writeChannel host request w).1.positive = true → f.IndexFits request w →
        Reachable f.folder_ request.record (f.writeChannel host request w).2.2) := by
  obtain ⟨log, pairs, hp, hstocked, hplaced⟩ := hf hthere
  obtain ⟨pairs', hwrote, hstocked'⟩ := writeChannel_wrote hn hp hstocked hr
  obtain ⟨i, hp', -⟩ := hwrote.shelved hr hp
  have hplaced' : ∀ p ∈ pairs', p.Placed f.folder_ := by
    have hall := hwrote.placed (D := (· = f.folder_)) hr hquiet rfl fun p hp => by
      rw [(hplaced p hp).dir]
      exact ⟨hplaced p hp, rfl⟩
    intro p hp
    obtain ⟨hown, hdir⟩ := hall p hp
    rwa [hdir] at hown
  have hgrows := (f.writeChannel_reaches host (fun _ => False) request w).grows
  refine ⟨fun _ => ⟨_, pairs', hp', ?_, ?_⟩, fun hout hfit => ?_⟩
  · rw [folder_writeChannel]
    exact hstocked'
  · rw [folder_writeChannel]
    exact hplaced'
  · obtain ⟨p, hmem, hrecord, hindex⟩ := hwrote.record hr hp hfit hout
    exact hp'.reachable (hgrows.lookup _ _ hthere) hmem (hplaced' p hmem) hrecord hr.time hindex

/-- No write to a channel brings a directory back. -/
lemma writeChannel_stays_gone (hgone : w.tree.lookup f.folder_ ≠ some .dir) :
    (f.writeChannel host request w).2.2.tree.lookup f.folder_ ≠ some .dir := by
  intro hthere
  rcases (f.writeChannel_reaches host (fun _ => False) request w).dirs hthere with hold | hmade
  · exact hgone hold
  · obtain ⟨_, hno, _⟩ := hmade
    exact hno

/-- A folder stays filed. -/
lemma Filed.writeChannel (hn : host.NeverFails) (hquiet : f.folder_.Quiet) (hr : request.Proper)
    (hf : f.Filed w) :
    (f.writeChannel host request w).2.1.Filed (f.writeChannel host request w).2.2 := by
  by_cases hthere : w.tree.lookup f.folder_ = some .dir
  · exact (writeChannel_filed hn hquiet hr hf hthere).1
  · intro hdir
    rw [folder_writeChannel] at hdir
    exact absurd hdir (writeChannel_stays_gone hthere)

/-- A folder without channels. -/
lemma filed_of_nil (h : f.files_ = []) : f.Filed w := fun _ =>
  ⟨[], [], .empty w, ⟨rfl, fun channel s hlook => by simp [h] at hlook⟩, by simp⟩

end Folder

/-! ## The backend -/

/-- The active folder is that of its day, and its files are there as long as its directory is. -/
structure FilesystemStorageBackend.Tended (root : Path) (b : FilesystemStorageBackend)
    (w : World) : Prop where
  homed : b.Homed root
  filed : b.folder_.yyyymmdd_ ≠ 0 → b.folder_.Filed w

variable {host : Host} {root : Path} {st : Storage} {b : FilesystemStorageBackend} {w : World}
  {request : LogRequest}

/-- **A directory that is gone does not come back** while its folder is active. -/
lemma backend_write_gone (hb : b.Homed root) (hgone : b.AppendsGone host request w) :
    (b.write host request w).2.2.tree.lookup (dayDir host root request.time_ns) ≠ some .dir := by
  obtain ⟨hsame, hopen, hdir⟩ := hgone
  obtain ⟨f, w₁, hfolder, -, ⟨-, rfl, -, rfl⟩ | ⟨hother, -⟩, hto⟩ :=
    backend_write_folder host hb request w
  · rw [hb.path, ← hfolder] at hdir
    rw [← hfolder]
    rcases hto with heq | ⟨-, -, heq⟩
    · rw [heq]
      exact Folder.writeChannel_stays_gone hdir
    · rw [heq]
      exact hdir
  · rw [hsame] at hother
    cases hother

/-- **A record that is reported goes to a directory that is there afterwards**, unless it is
appended to files of one that is gone. -/
lemma backend_write_there (hb : b.Homed root)
    (hpos : (b.write host request w).1.positive = true) :
    (b.write host request w).2.2.tree.lookup (dayDir host root request.time_ns) = some .dir ↔
      ¬ b.AppendsGone host request w := by
  refine ⟨fun hthere hgone => backend_write_gone hb hgone hthere, fun hlinked => ?_⟩
  obtain ⟨f, w₁, hfolder, -, hfrom, heq | ⟨-, hno, -⟩⟩ :=
    backend_write_folder host hb request w
  · rw [heq] at hpos ⊢
    rw [← hfolder]
    by_cases hthere : w₁.tree.lookup f.folder_ = some .dir
    · exact (f.writeChannel_reaches host (fun _ => False) request w₁).grows.lookup _ _ hthere
    · -- without open files nothing is reported
      have hidle : ¬ f.HasOpen request.channel := by
        rcases hfrom with ⟨hsame, rfl, -, rfl⟩ | ⟨-, hfiles, -⟩
        · exact fun hopen => hlinked ⟨hsame, hopen, by rw [hb.path, ← hfolder]; exact hthere⟩
        · rintro ⟨s, file, hlook, -⟩
          simp [hfiles] at hlook
      have hzero := (Folder.writeChannel_gone host hthere hidle).1
      exact absurd hpos (by simp [hzero])
  · exact absurd hpos (by simp [hno])

/-- **A write to the backend** keeps the active folder tended.  A record that is reported can be
read, unless it was appended to files that are gone. -/
lemma backend_write_tended (hn : host.NeverFails) (hroot : root.Quiet) (hr : request.Proper)
    (hb : b.Tended root w) :
    (b.write host request w).2.1.Tended root (b.write host request w).2.2 ∧
      ((b.write host request w).1.positive = true → ¬ b.AppendsGone host request w →
        (b.folder_.sameDay host request.time_ns = true → b.folder_.IndexFits request w) →
          Reachable (dayDir host root request.time_ns) request.record
            (b.write host request w).2.2) := by
  have hhomed := hb.homed.write host request w
  obtain ⟨f, w₁, hfolder, -, hfrom, hto⟩ := backend_write_folder host hb.homed request w
  have hquiet : f.folder_.Quiet := hfolder ▸ hroot.day _
  have hfiled : f.Filed w₁ := by
    rcases hfrom with ⟨-, rfl, hday, rfl⟩ | ⟨-, hfiles, -⟩
    · exact hb.filed hday
    · exact Folder.filed_of_nil hfiles
  rcases hto with heq | ⟨-, hno, heq⟩
  · rw [heq] at hhomed ⊢
    refine ⟨⟨hhomed, fun _ => hfiled.writeChannel hn hquiet hr⟩,
      fun hout hlinked hfit => ?_⟩
    rw [← hfolder]
    have hfits : f.IndexFits request w₁ := by
      rcases hfrom with ⟨hsame, rfl, -, rfl⟩ | ⟨-, hfiles, -⟩
      · exact hfit hsame
      · intro s file hlook
        simp [hfiles] at hlook
    by_cases hthere : w₁.tree.lookup f.folder_ = some .dir
    · exact (Folder.writeChannel_filed hn hquiet hr hfiled hthere).2 hout hfits
    · -- the directory would not come back
      have hdir := (backend_write_there hb.homed (by rw [heq]; exact hout)).mpr hlinked
      rw [heq, ← hfolder] at hdir
      exact absurd hdir (Folder.writeChannel_stays_gone hthere)
  · rw [heq] at hhomed ⊢
    exact ⟨⟨hhomed, fun _ => hfiled⟩, fun hout => absurd hout (by simp [hno])⟩

/-! ## The storage -/

/-- The index file of fixed-size records that the request goes to stays below `2 ^ 32` bytes. -/
def Storage.IndexFits (host : Host) (st : Storage) (request : LogRequest) (w : World) : Prop :=
  st.backend_.folder_.sameDay host request.time_ns = true →
    st.backend_.folder_.IndexFits request w

/-- Eviction takes whole directories. -/
lemma FilesystemStorageBackend.Tended.evict {need available available' : ℕ} {w' : World}
    {names : List Bytes} (h : b.Tended root w)
    (he : Evicts b need available w names available' w') : b.Tended root w' where
  homed := h.homed
  filed hday hthere := by
    obtain ⟨log, pairs, hp, hstocked, hplaced⟩ := h.filed hday (he.lookup hthere)
    refine ⟨log, pairs, { hp with kept := fun p hmem => ?_, linked := fun p hmem => ?_ },
      hstocked, hplaced⟩
    · exact (hp.kept p hmem).grow (t := []) (by rw [he.keeps.1, List.append_nil]) he.inodes.ge
        (by simp)
    · have hl := hp.linked p hmem
      rw [h.homed.folder hday, ← h.homed.path] at hthere
      have hdir : p.dir = b.folder_path_ ++ [toDec b.folder_.yyyymmdd_] := by
        rw [(hplaced p hmem).dir, h.homed.folder hday, h.homed.path]
      refine ⟨fun q => ⟨fun hq => (hl.index q).mp (he.lookup hq), ?_⟩, fun h0 => ?_⟩
      · rintro rfl
        have hold := (hl.index p.indexPath).mpr rfl
        rw [FilePair.indexPath, StreamWriter.indexPath, hdir] at hold ⊢
        exact he.link hthere hold
      · have hold := hl.data h0
        rw [FilePair.dataPath, StreamWriter.dataPath, hdir] at hold ⊢
        exact he.link hthere hold

/-- **A call keeps the active folder tended.** -/
lemma storage_write_tended (hn : host.NeverFails) (hroot : root.Quiet) (hr : request.Proper)
    (h : st.backend_.Tended root w) :
    (st.write host request w).2.1.backend_.Tended root (st.write host request w).2.2 := by
  obtain ⟨names, available, w₁, he, ⟨hback, hw, -⟩ | ⟨-, heq⟩⟩ :=
    storage_write_cases host st request w
  · rw [hback, hw]
    exact h.evict he
  · rw [heq, backend_writeToBackend, world_writeToBackend]
    exact (backend_write_tended hn hroot hr (h.evict he)).1

/-- **A record that is acknowledged** can be read, unless it was appended to files of a day that is
gone. -/
lemma storage_write_reachable_iff (hn : host.NeverFails) (hroot : root.Quiet)
    (hr : request.Proper) (h : st.backend_.Tended root w) (hcount : st.Countable w)
    (hfit : st.IndexFits host request w) (hpos : (st.write host request w).1.positive = true) :
    Reachable (dayDir host root request.time_ns) request.record (st.write host request w).2.2 ↔
      ¬ st.AppendsUnlinked host request w := by
  obtain ⟨names, available, w₁, he, ⟨-, -, hno⟩ | ⟨hneed, heq⟩⟩ :=
    storage_write_cases host st request w
  · exact absurd hpos (by simp [hno])
  · have htended := h.evict he
    have hfit₁ : st.backend_.folder_.sameDay host request.time_ns = true →
        st.backend_.folder_.IndexFits request w₁ := fun hsame s file hlook hlive hne => by
      have := hfit hsame s file hlook hlive hne
      rwa [World.content, he.keeps.1]
    rw [heq, outcome_writeToBackend] at hpos
    rw [appendsUnlinked_iff he hneed hcount, heq, world_writeToBackend]
    constructor
    · rintro ⟨hthere, -⟩ hgone
      exact backend_write_gone htended.homed hgone hthere
    · intro hlinked
      exact (backend_write_tended hn hroot hr htended).2 hpos hlinked hfit₁

/-- **A record that was acknowledged can be read exactly when its call did not append to files of a
day that is gone.**  That holds of every call in every run, whatever is below the root at first, as
long as the available bytes and those on disk can be added up and the index file of the channel can
be measured. -/
theorem acknowledged_iff (hn : host.NeverFails) (hroot : root.Quiet) {max_size : ℤ}
    {w₀ w₁ : World}
    {st₀ : Storage} (hmake : Storage.make root max_size w₀ = some (st₀, w₁))
    {requests : List LogRequest} (hproper : ∀ r ∈ requests, r.Proper) {x : Storage × World}
    (hrun : Machine.run (Storage.writeStep host) (st₀, w₁) requests = some x)
    (hr : request.Proper) (hpos : (x.1.write host request x.2).1.positive = true)
    (hcount : x.1.Countable x.2) (hfit : x.1.IndexFits host request x.2) :
    Reachable (dayDir host root request.time_ns) request.record (x.1.write host request x.2).2.2 ↔
      ¬ x.1.AppendsUnlinked host request x.2 := by
  have hstart : st₀.backend_.Tended root w₁ := by
    rw [(backend_make hmake).2]
    exact ⟨homed_make root, fun h => absurd rfl h⟩
  have hstep : ∀ (y : Storage × World), ∀ r ∈ requests, ∀ y' : Storage × World,
      y.1.backend_.Tended root y.2 → Storage.writeStep host y r = some y' →
        y'.1.backend_.Tended root y'.2 := by
    intro y r hmem y' hy hy'
    have heq : (y.1.write host r y.2).2 = y' := Option.some.inj hy'
    rw [← heq]
    exact storage_write_tended hn hroot (hproper r hmem) hy
  have hx : x.1.backend_.Tended root x.2 :=
    @Machine.run_invariant_of_mem _ _ _ (fun y => y.1.backend_.Tended root y.2) _ _ _ hstep hstart
      hrun
  exact storage_write_reachable_iff hn hroot hr hx hcount hfit hpos

/-- Requests of the channel `a`. -/
lemma proper_small {data : Bytes} (h : data.length < 2 ^ 30) :
    LogRequest.Proper ⟨ascii "a", 0, data, 1704067200000000000⟩ := by
  obtain ⟨htime, hshort, hnul, hslash, hback, hidx⟩ : (1704067200000000000 : UInt64) ≠ 0 ∧
      (ascii "a").length ≤ 31 ∧ (0 : UInt8) ∉ ascii "a" ∧ (47 : UInt8) ∉ ascii "a" ∧
      (92 : UInt8) ∉ ascii "a" ∧ find dotIdx (ascii "a") = none := by decide +kernel
  exact ⟨htime, h, hshort, hnul, hslash, hback, hidx⟩

lemma quiet_small : Path.Quiet [ascii "r"] := by
  obtain ⟨hcanonical, hidx⟩ : (∀ c ∈ [ascii "r"], c ≠ [] ∧ (47 : UInt8) ∉ c) ∧
      find dotIdx (Path.string [ascii "r"]) = none := by decide +kernel
  exact ⟨hcanonical, hidx⟩

/-- Two records of one day, with a budget for both. -/
theorem acknowledged_second :
    let hello : LogRequest := ⟨ascii "a", 0, ascii "hello", 1704067200000000000⟩
    ∃ st x, Storage.make [ascii "r"] 1000 (.bare [ascii "r"]) = some (st, .bare [ascii "r"]) ∧
      Machine.run (Storage.writeStep .january) (st, .bare [ascii "r"]) [hello] = some x ∧
      Reachable (dayDir .january [ascii "r"] hello.time_ns) hello.record
        (x.1.write .january hello x.2).2.2 := by
  intro hello
  obtain ⟨st, hmake⟩ : ∃ st, Storage.make [ascii "r"] ((1000 : ℕ) : ℤ)
    (.bare [ascii "r"]) =
      some (st, .bare [ascii "r"]) := ⟨_, make_of_empty emptyRoot_bare (by norm_num)⟩
  have hfacts : (Storage.make [ascii "r"] ((1000 : ℕ) : ℤ) (.bare [ascii "r"])).map (fun x =>
      let y := (x.1.write .january hello x.2).2
      ((y.1.write .january hello y.2).1.positive, y.1.available_bytes_,
        y.1.backend_.usedBytes y.2,
        (y.1.backend_.folder_.files_.lookup hello.channel).map StreamWriter.record_size_,
        y.2.tree.lookup (dayDir .january y.1.backend_.folder_path_ hello.time_ns))) =
      some (true, 971, 127, some 0, some .dir) := by
    decide +kernel
  rw [hmake, Option.map_some, Option.some.injEq] at hfacts
  simp only [Prod.mk.injEq] at hfacts
  obtain ⟨hpos, havailable, hused, hsize, hthere⟩ := hfacts
  have hneed : maxRecordSize hello.data.length = 127 := by decide +kernel
  have hproper : hello.Proper := proper_small (by decide +kernel)
  have hrun : Machine.run (Storage.writeStep .january) (st, .bare [ascii "r"]) [hello] =
      some (st.write .january hello (.bare [ascii "r"])).2 := rfl
  refine ⟨st, _, hmake, hrun, (acknowledged_iff Host.neverFails_january quiet_small hmake
    (by simpa using hproper) hrun hproper hpos ?_ ?_).mpr ?_⟩
  · rw [Storage.Countable, havailable, hused]
    norm_num
  · intro _ s file hlook _ hne
    rw [hlook, Option.map_some, Option.some.injEq] at hsize
    exact absurd hsize hne
  · rintro ⟨-, -, -, hgone | hless⟩
    · exact hgone hthere
    · rw [hneed, havailable] at hless
      omega

/-- The second record of `75` bytes needs the whole budget of `197` bytes.  It is accepted, its
bytes are counted, and the directory of its day is gone. -/
theorem acknowledged_record_lost :
    let r : LogRequest := ⟨ascii "a", 0, List.replicate 75 0, 1704067200000000000⟩
    Host.january.NeverFails ∧ Path.Quiet [ascii "r"] ∧ r.Proper ∧
    ∃ st x, Storage.make [ascii "r"] 197 (.bare [ascii "r"]) = some (st, .bare [ascii "r"]) ∧
      Machine.run (Storage.writeStep .january) (st, .bare [ascii "r"]) [r] = some x ∧
      (x.1.write .january r x.2).1 = .ret 99 ∧
      ¬ Reachable (dayDir .january [ascii "r"] r.time_ns) r.record
        (x.1.write .january r x.2).2.2 := by
  intro r
  obtain ⟨st, hmake⟩ : ∃ st, Storage.make [ascii "r"] ((197 : ℕ) : ℤ)
    (.bare [ascii "r"]) =
      some (st, .bare [ascii "r"]) := ⟨_, make_of_empty emptyRoot_bare (by norm_num)⟩
  have hfacts : (Storage.make [ascii "r"] ((197 : ℕ) : ℤ) (.bare [ascii "r"])).map (fun x =>
      let y := (x.1.write .january r x.2).2
      let z := y.1.write .january r y.2
      (z.1, z.2.2.tree.lookup (dayDir .january [ascii "r"] r.time_ns))) = some (.ret 99, none) := by
    decide +kernel
  rw [hmake, Option.map_some, Option.some.injEq] at hfacts
  simp only [Prod.mk.injEq] at hfacts
  obtain ⟨hout, hgone⟩ := hfacts
  have hrun : Machine.run (Storage.writeStep .january) (st, .bare [ascii "r"]) [r] =
      some (st.write .january r (.bare [ascii "r"])).2 := rfl
  refine ⟨Host.neverFails_january, quiet_small, proper_small (by decide +kernel), st, _, hmake,
    hrun, hout, ?_⟩
  rintro ⟨hthere, -⟩
  rw [hgone] at hthere
  cases hthere

end Tracebox
