import Tracebox.Host.Disk
import Tracebox.Hosted.Storage
import Tracebox.Lib.Machine
import Tracebox.Stream.Collisions

/-!
# Which requests the storage path survives

The thread that writes has no handler, so a call of `Storage::write` that does not return ends it.
Calls of `std::filesystem` that can throw are spread over the path: the iteration of the root, the
type of each of its entries, the measuring and the removal of the day to delete, the test for a day
directory and its creation, and the search for a free file name, which may also go on for ever.  For
each of them this module says exactly when it gets through, over any system.

* `freshName_found_iff`, `reopenFile_returned_iff` — when new files can be opened at all.
* `StreamWriter.Accepts`, `Folder.Accepts`, `Backend.Accepts` — when a write returns, level by
  level.
* `CanEvict`, `makeRoom_spec` — when eviction gets through.
* `write_returns_iff` — **in every state a storage on a disk reaches, `Storage::write` returns
  exactly when eviction gets through and the backend accepts the request**.
-/

namespace Tracebox

open Bytes

/-- The call came back with a value. -/
def Outcome.returned : Outcome → Bool
  | .ret _ => true
  | _ => false

@[simp] lemma Outcome.returned_ret (v : ℤ) : (Outcome.ret v).returned = true := rfl
@[simp] lemma Outcome.returned_thrown : Outcome.thrown.returned = false := rfl
@[simp] lemma Outcome.returned_hangs : Outcome.hangs.returned = false := rfl

lemma Outcome.returned_iff {o : Outcome} : o.returned = true ↔ ∃ v, o = .ret v := by
  cases o <;> simp

namespace System

variable {σ : Type} (sys : System σ)

namespace StreamWriter

open Tracebox.StreamWriter (candidate exists_candidate live NameSearch)

/-! ## The search for a name -/

/-- One of the names is free, the ones before it are taken, and the system can tell. -/
def Nameable (dir : Path) (base : Bytes) (x : σ) : Prop :=
  ∃ k, (∀ j < k, nameTaken sys dir (candidate base j) x = some true) ∧
    nameTaken sys dir (candidate base k) x = some false

/-- The loop from the `i`-th name on. -/
lemma searchName_found_iff {dir : Path} {base : Bytes} {x : σ} {fuel : ℕ} : ∀ {i : ℕ},
    (∃ name, searchName sys dir base x fuel (i + 1) (candidate base i) = .found name) ↔
      ∃ k, i ≤ k ∧ k < i + fuel ∧
        (∀ j, i ≤ j → j < k → nameTaken sys dir (candidate base j) x = some true) ∧
        nameTaken sys dir (candidate base k) x = some false := by
  induction fuel with
  | zero =>
      intro i
      constructor
      · rintro ⟨name, h⟩
        simp [searchName] at h
      · rintro ⟨k, h1, h2, -⟩
        omega
  | succ fuel ih =>
      intro i
      rw [searchName]
      cases htaken : nameTaken sys dir (candidate base i) x with
      | none =>
          constructor
          · rintro ⟨name, h⟩
            cases h
          · rintro ⟨k, hik, -, hbefore, hfree⟩
            rcases hik.eq_or_lt with rfl | hlt
            · simp [htaken] at hfree
            · have := hbefore i le_rfl hlt
              simp [htaken] at this
      | some taken =>
          cases taken with
          | false =>
              constructor
              · rintro -
                exact ⟨i, le_rfl, by omega, fun j h1 h2 => by omega, htaken⟩
              · rintro -
                exact ⟨_, rfl⟩
          | true =>
              have hnext : base ++ 95 :: toDec ((i + 1) % 2 ^ 32) = candidate base (i + 1) := rfl
              simp only [hnext]
              rw [ih]
              constructor
              · rintro ⟨k, hik, hlt, hbefore, hfree⟩
                refine ⟨k, by omega, by omega, fun j h1 h2 => ?_, hfree⟩
                rcases h1.eq_or_lt with rfl | h1
                · exact htaken
                · exact hbefore j h1 h2
              · rintro ⟨k, hik, hlt, hbefore, hfree⟩
                have hne : i ≠ k := by
                  rintro rfl
                  simp [htaken] at hfree
                exact ⟨k, by omega, by omega, fun j h1 h2 => hbefore j (by omega) h2, hfree⟩

/-- **The search settles on a name exactly when there is one.**  The names behind the largest suffix
were all looked at before. -/
lemma freshName_found_iff {s : StreamWriter} {time_ns : UInt64} {x : σ} :
    (∃ name, freshName sys s time_ns x = .found name) ↔
      Nameable sys s.folder_ (s.fileName sys.host time_ns) x := by
  refine (searchName_found_iff sys (i := 0)).trans ⟨?_, ?_⟩
  · rintro ⟨k, -, -, hbefore, hfree⟩
    exact ⟨k, fun j hj => hbefore j (Nat.zero_le j) hj, hfree⟩
  · rintro ⟨k, hbefore, hfree⟩
    obtain ⟨j, hj, hjk, hsame⟩ := exists_candidate (s.fileName sys.host time_ns) k
    have hk : j = k := by
      by_contra hne
      have htaken := hbefore j (by omega)
      rw [← hsame, hfree] at htaken
      cases htaken
    subst hk
    exact ⟨j, Nat.zero_le j, by omega, fun i _ hi => hbefore i hi, hfree⟩

/-! ## New files -/

/-- What holds of a writer behind `reopenFile`, whatever came of it: a new pair of files begins with
a header, and the fault injector stays as it is. -/
structure Renewed (s s' : StreamWriter) : Prop where
  offset : s'.offset_.toNat ≤ 49
  injector : s'.fault_injector_ = s.fault_injector_

lemma reopenData_renewed (s : StreamWriter) (file_name : Bytes) (index : FileIo)
    (time_ns : UInt64) (result : ℤ) (x : σ) :
    (reopenData sys s file_name index time_ns result x).1.returned = true ∧
      Renewed s (reopenData sys s file_name index time_ns result x).2.1 := by
  have h49 : (UInt32.ofNat sizeofLogFileHeader).toNat ≤ 49 := by decide
  simp only [reopenData]
  generalize (if (sys.open_ s.folder_ (file_name ++ dotData) x).1.is_open = true then _
    else _ : ℤ × σ) = r
  split
  · exact ⟨rfl, h49, rfl⟩
  · exact ⟨rfl, h49, rfl⟩

lemma reopenAs_renewed (s : StreamWriter) (file_name : Bytes) (time_ns : UInt64) (x : σ)
    (h0 : s.offset_ = 0) : (reopenAs sys s file_name time_ns x).1.returned = true ∧
      Renewed s (reopenAs sys s file_name time_ns x).2.1 := by
  have h49 : s.offset_.toNat ≤ 49 := by
    rw [h0]
    decide
  simp only [reopenAs]
  generalize sys.open_ s.folder_ (file_name ++ dotIdx) x = o
  split
  · exact ⟨rfl, h49, rfl⟩
  · generalize writeHeader sys { s with index_ := some o.1 } o.1 time_ns kIndexFile o.2 = r
    split
    · exact ⟨rfl, h49, rfl⟩
    · split
      · obtain ⟨hret, hnew⟩ := reopenData_renewed sys
          { s with index_ := some o.1 } file_name o.1
          time_ns r.1 r.2
        exact ⟨hret, hnew.offset, hnew.injector⟩
      · exact ⟨rfl, h49, rfl⟩

lemma reopenFile_renewed (s : StreamWriter) (time_ns : UInt64) (x : σ) :
    Renewed s (reopenFile sys s time_ns x).2.1 := by
  have h49 : (0 : UInt32).toNat ≤ 49 := by decide
  simp only [reopenFile]
  split
  · exact ⟨h49, rfl⟩
  · exact ⟨h49, rfl⟩
  · rename_i file_name _
    obtain ⟨-, hnew⟩ := reopenAs_renewed sys { s with offset_ := 0 } file_name time_ns x rfl
    exact ⟨hnew.offset, hnew.injector⟩

/-- **`reopenFile` returns exactly when there is a name.** -/
lemma reopenFile_returned_iff {s : StreamWriter} {time_ns : UInt64} {x : σ} :
    (reopenFile sys s time_ns x).1.returned = true ↔
      Nameable sys s.folder_ (s.fileName sys.host time_ns) x := by
  have hsame : freshName sys { s with offset_ := 0 } time_ns x = freshName sys s time_ns x := rfl
  rw [← freshName_found_iff]
  simp only [reopenFile, hsame]
  cases hname : freshName sys s time_ns x with
  | thrown => simp
  | hangs => simp
  | found file_name =>
      simp only [NameSearch.found.injEq, exists_eq', iff_true]
      exact (reopenAs_renewed sys { s with offset_ := 0 } file_name time_ns x rfl).1

/-! ## A stream -/

/-- The stream takes a record without an exception: it does not have to begin new files, or there
is a name for them once the old ones are closed. -/
def Accepts (s : StreamWriter) (time_ns : UInt64) (data : Bytes) (x : σ) : Prop :=
  live s.index_ ≠ none → s.record_size_ = 0 → live s.data_ ≠ none →
    s.rollover data = true →
    Nameable sys s.folder_ (s.fileName sys.host time_ns) (closeFile sys s (sys.now x).2).2

lemma commitRecord_returned {s : StreamWriter} (hinj : s.fault_injector_ = false)
    (flush : Bool) (time_ns : UInt64) (data : Bytes) (result : ℤ) (x : σ) :
    (commitRecord sys s flush time_ns data result x).1.returned = true ∧
      (commitRecord sys s flush time_ns data result x).2.1.fault_injector_ = false := by
  have hpass : ∀ x, inject sys s x = (true, x) := fun x => by simp [inject, hinj]
  simp only [commitRecord, hpass, not_true_eq_false, if_false]
  split
  · exact ⟨rfl, hinj⟩
  · split
    · exact ⟨rfl, hinj⟩
    · exact ⟨rfl, hinj⟩

/-- The rest of a write that begins new files. -/
lemma rollover_returned_iff {s : StreamWriter} (hinj : s.fault_injector_ = false) (flush : Bool)
    (time_ns : UInt64) (data : Bytes) (x : σ) (hdata : live s.data_ ≠ none)
    (hroll : s.rollover data = true) :
    ((writeVariable sys s flush time_ns data x).1.returned = true ↔
        Nameable sys s.folder_ (s.fileName sys.host time_ns) (closeFile sys s x).2) ∧
      (writeVariable sys s flush time_ns data x).2.1.fault_injector_ = false := by
  obtain ⟨data_file, hd⟩ := Option.ne_none_iff_exists'.mp hdata
  have hiff : (reopenFile sys (closeFile sys s x).1 time_ns (closeFile sys s x).2).1.returned =
    true ↔
      Nameable sys s.folder_ (s.fileName sys.host time_ns) (closeFile sys s x).2 :=
    reopenFile_returned_iff sys
  have hnew := reopenFile_renewed sys (closeFile sys s x).1 time_ns (closeFile sys s x).2
  have hclosed : (closeFile sys s x).1.fault_injector_ = false := hinj
  simp only [writeVariable, hd, hroll, if_true]
  rw [← hiff]
  generalize reopenFile sys (closeFile sys s x).1 time_ns (closeFile sys s x).2 = r at hnew ⊢
  have hinj' : r.2.1.fault_injector_ = false := hnew.injector.trans hclosed
  obtain ⟨outcome, s₁, x₁⟩ := r
  cases outcome with
  | ret ret =>
      by_cases hret : ret ≤ 0
      · simp only [hret, if_true]
        exact ⟨trivial, hinj'⟩
      · simp only [hret, if_false]
        obtain ⟨hcommit, hkeep⟩ := commitRecord_returned sys hinj' flush time_ns data ret x₁
        exact ⟨⟨fun _ => rfl, fun _ => hcommit⟩, hkeep⟩
  | thrown => exact ⟨Iff.rfl, hinj'⟩
  | hangs => exact ⟨Iff.rfl, hinj'⟩

/-- **When a stream's write returns.** -/
lemma write_returned_iff {s : StreamWriter} (hinj : s.fault_injector_ = false)
    (time_ns : UInt64) (data : Bytes) (x : σ) :
    ((write sys s time_ns data x).1.returned = true ↔ Accepts sys s time_ns data x) ∧
      (write sys s time_ns data x).2.1.fault_injector_ = false := by
  rw [Accepts, write]
  cases hindex : live s.index_ with
  | none => exact ⟨by simp, hinj⟩
  | some index_file =>
      by_cases hsize : s.record_size_ = 0
      · simp only [hsize, ne_eq, not_true_eq_false, if_false]
        cases hdata : live s.data_ with
        | none =>
            simp only [writeVariable, hdata]
            exact ⟨by simp, hinj⟩
        | some data_file =>
            by_cases hroll : s.rollover data = true
            · obtain ⟨hiff, hkeep⟩ := rollover_returned_iff sys hinj (flushDue sys s x) time_ns
                data (sys.now x).2 (by simp [hdata]) hroll
              exact ⟨hiff.trans (by simp [hroll]), hkeep⟩
            · simp only [writeVariable, hdata, hroll, Bool.false_eq_true, if_false]
              obtain ⟨hcommit, hkeep⟩ := commitRecord_returned sys hinj
                (flushDue sys s x) time_ns
                data 0 (sys.now x).2
              exact ⟨by simp [hcommit], hkeep⟩
      · simp only [hsize, ne_eq, not_false_eq_true, if_true, writeFixed]
        split
        · split
          · exact ⟨by simp, hinj⟩
          · exact ⟨by simp, hinj⟩
        · exact ⟨by simp, hinj⟩

end StreamWriter

/-! ## A folder -/

namespace Folder

/-- The files of a channel that is new to a directory can be named. -/
def Opens (dir : Path) (request : LogRequest) (x : σ) : Prop :=
  StreamWriter.Nameable sys dir (StreamWriter.fileName sys.host
    { folder_ := dir, name_ := request.channel, record_size_ := request.size } request.time_ns) x

/-- The channel's stream takes the record, or its files can be named when it is new. -/
def Accepts (f : Folder) (request : LogRequest) (x : σ) : Prop :=
  match f.files_.lookup request.channel with
  | some s => StreamWriter.Accepts sys s request.time_ns request.data x
  | none => Opens sys f.folder_ request x

/-- No stream of the folder has a fault injector. -/
def Plain (f : Folder) : Prop := ∀ e ∈ f.files_, e.2.fault_injector_ = false

lemma update_plain {f : Folder} (hf : Plain f) (channel : Bytes) {s : StreamWriter}
    (hs : s.fault_injector_ = false) : Plain (f.update channel s) := by
  intro e he
  obtain ⟨e₀, he₀, rfl⟩ := List.mem_map.mp he
  by_cases hc : e₀.1 = channel
  · rw [if_pos hc]
    exact hs
  · rw [if_neg hc]
    exact hf e₀ he₀

/-- A stream that was just opened does not have to begin new files again. -/
lemma accepts_renewed {s s' : StreamWriter} (h : StreamWriter.Renewed s s') (time_ns : UInt64)
    {data : Bytes} (hdata : data.length < 2 ^ 31) (x : σ) :
    StreamWriter.Accepts sys s' time_ns data x := by
  intro _ _ _ hroll
  have hoff := h.offset
  have hmod : (UInt32.ofNat data.length).toNat = data.length := by
    rw [UInt32.toNat_ofNat']
    omega
  simp only [StreamWriter.rollover, StreamWriter.totalLength, hmod, UINT32_MAX,
    decide_eq_true_eq] at hroll
  omega

/-- **When a write to a folder returns.** -/
lemma writeChannel_returned_iff {f : Folder} (hf : Plain f) (request : LogRequest) (x : σ) :
    (request.data.length < 2 ^ 31 →
      ((writeChannel sys f request x).1.returned = true ↔ Accepts sys f request x)) ∧
      Plain (writeChannel sys f request x).2.1 := by
  rw [Accepts]
  cases hlook : f.files_.lookup request.channel with
  | some s =>
      have hs : s.fault_injector_ = false := by
        obtain ⟨l₁, l₂, heq, -⟩ := List.lookup_eq_some_iff.mp hlook
        exact hf (request.channel, s) (by rw [heq]; simp)
      obtain ⟨hiff, hkeep⟩ := StreamWriter.write_returned_iff sys hs request.time_ns
        request.data x
      simp only [writeChannel, hlook]
      exact ⟨fun _ => hiff, update_plain hf request.channel hkeep⟩
  | none =>
      have hiff : (StreamWriter.openFile sys { folder_ := f.folder_ } request x).1.returned =
          true ↔ Opens sys f.folder_ request x := StreamWriter.reopenFile_returned_iff sys
      have hnew : StreamWriter.Renewed
          { folder_ := f.folder_, name_ := request.channel, record_size_ := request.size }
          (StreamWriter.openFile sys { folder_ := f.folder_ } request x).2.1 :=
        StreamWriter.reopenFile_renewed sys _ request.time_ns x
      simp only [writeChannel, hlook]
      rw [← hiff]
      generalize StreamWriter.openFile sys { folder_ := f.folder_ } request x = o at hnew ⊢
      have hs : o.2.1.fault_injector_ = false := hnew.injector
      have hadd : Plain { f with files_ := f.files_ ++ [(request.channel, o.2.1)] } := by
        intro e he
        rcases List.mem_append.mp he with he | he
        · exact hf e he
        · rw [List.mem_singleton.mp he]
          exact hs
      obtain ⟨outcome, s, x₁⟩ := o
      cases outcome with
      | ret result =>
          by_cases hret : result ≤ 0
          · simp only [hret, if_true]
            exact ⟨fun _ => trivial, hadd⟩
          · simp only [hret, if_false]
            obtain ⟨hwrite, hkeep⟩ :=
              StreamWriter.write_returned_iff sys hs request.time_ns request.data x₁
            refine ⟨fun hdata => ⟨fun _ => rfl, fun _ => ?_⟩,
              update_plain hadd request.channel hkeep⟩
            exact hwrite.mpr (accepts_renewed sys hnew request.time_ns hdata x₁)
      | thrown => exact ⟨fun _ => Iff.rfl, hadd⟩
      | hangs => exact ⟨fun _ => Iff.rfl, hadd⟩

end Folder

/-! ## The backend -/

namespace Backend

/-- The system can tell whether the day directory is there.  When it is not, it can be made or is
reported missing.  And the files can be named in it. -/
def Creates (root : Path) (request : LogRequest) (x : σ) : Prop :=
  match sys.there (dayDir sys root request.time_ns) x with
  | none => False
  | some true => Folder.Opens sys (dayDir sys root request.time_ns) request x
  | some false => match sys.create_directories (dayDir sys root request.time_ns) x with
    | (none, _) => False
    | (some true, x') => Folder.Opens sys (dayDir sys root request.time_ns) request x'
    | (some false, _) => True

/-- The active folder takes the record when it is of the day; otherwise there is room for a new
folder once the active one is closed. -/
def Accepts (b : FilesystemStorageBackend) (request : LogRequest) (x : σ) : Prop :=
  if b.folder_.sameDay sys.host request.time_ns then Folder.Accepts sys b.folder_ request x
  else Creates sys b.folder_path_ request (Folder.close sys b.folder_ x)

/-- No stream has a fault injector. -/
def Plain (b : FilesystemStorageBackend) : Prop := Folder.Plain b.folder_

/-- **A new folder's first write.** -/
lemma newFolder_returned_iff (root : Path) (request : LogRequest) (x : σ) :
    (request.data.length < 2 ^ 31 →
      ((Folder.write sys { folder_ := root } request x).1.returned = true ↔
        Creates sys root request x)) ∧
      Folder.Plain (Folder.write sys { folder_ := root } request x).2.1 := by
  have hopens : ∀ x₁ : σ, (request.data.length < 2 ^ 31 →
      ((Folder.writeChannel sys ⟨sys.host.cal.Time2YYYYMMDD request.time_ns,
          dayDir sys root request.time_ns, []⟩ request x₁).1.returned = true ↔
        Folder.Opens sys (dayDir sys root request.time_ns) request x₁)) ∧
      Folder.Plain (Folder.writeChannel sys ⟨sys.host.cal.Time2YYYYMMDD request.time_ns,
          dayDir sys root request.time_ns, []⟩ request x₁).2.1 := fun x₁ =>
    Folder.writeChannel_returned_iff sys (by simp [Folder.Plain]) request x₁
  have hempty : ∀ (day : ℕ) (dir : Path), Folder.Plain ⟨day, dir, []⟩ := by
    simp [Folder.Plain]
  have hdir : root ++ [toDec (sys.host.cal.Time2YYYYMMDD request.time_ns)] =
      dayDir sys root request.time_ns := rfl
  rw [Creates]
  simp only [Folder.write, if_true, Folder.create, hdir]
  cases hthere : sys.there (dayDir sys root request.time_ns) x with
  | none => exact ⟨by simp, hempty _ _⟩
  | some there =>
      cases there with
      | true => exact hopens x
      | false =>
          rcases sys.create_directories (dayDir sys root request.time_ns) x with ⟨_ | _ | _, x'⟩
          · exact ⟨by simp, hempty _ _⟩
          · exact ⟨by simp, hempty _ _⟩
          · exact hopens x'

/-- **When a write to the backend returns.** -/
lemma write_returned_iff {b : FilesystemStorageBackend} (hb : Plain b) (request : LogRequest)
    (x : σ) : (request.data.length < 2 ^ 31 →
      ((write sys b request x).1.returned = true ↔ Accepts sys b request x)) ∧
      Plain (write sys b request x).2.1 := by
  rw [Accepts, write]
  by_cases hsame : b.folder_.sameDay sys.host request.time_ns = true
  · have hday := (sys.host.cal.day_bounds request.time_ns).1
    have hd : b.folder_.yyyymmdd_ = sys.host.cal.Time2YYYYMMDD request.time_ns := by
      simpa [Folder.sameDay] using hsame
    have hwrite : Folder.write sys b.folder_ request x =
      Folder.writeChannel sys b.folder_ request x :=
      if_neg (by omega)
    rw [if_pos hsame, if_pos hsame, hwrite]
    exact Folder.writeChannel_returned_iff sys hb request x
  · rw [if_neg hsame, if_neg hsame]
    exact newFolder_returned_iff sys b.folder_path_ request (Folder.close sys b.folder_ x)

end Backend

/-! ## Eviction -/

/-- A directory can be listed, its entries can be measured, and it can be removed. -/
def Deletable (b : FilesystemStorageBackend) (folder : Bytes) (x : σ) : Prop :=
  ((sys.list (b.folder_path_ ++ [folder]) x).bind
    (sizesOf sys (b.folder_path_ ++ [folder]) x)).isSome = true ∧
    (sys.remove_all (b.folder_path_ ++ [folder]) x).1 = true

/-- The root can be listed and the type of each entry told, and the smallest number a directory is
read as, if there is one, is the name of a directory that can be deleted. -/
def CanEvict (b : FilesystemStorageBackend) (x : σ) : Prop :=
  ∃ oldest, Backend.findOldest sys b x = some oldest ∧
    (oldest = FilesystemStorageBackend.kMaxDay ∨ Deletable sys b (to_string oldest) x)

/-- The oldest days go, each only while the bytes freed so far are not enough. -/
inductive Evicts (b : FilesystemStorageBackend) (need : ℕ) :
    ℕ → σ → ℕ → σ → Prop where
  | stop (available : ℕ) (x : σ) : Evicts b need available x available x
  | evict {available freed available' : ℕ} {x x₁ x' : σ} (hneed : available < need)
      (hremove : Backend.removeOldest sys b x = (some (true, freed), x₁))
      (hrest : Evicts b need ((available + freed) % 2 ^ 64) x₁ available' x') :
      Evicts b need available x available' x'

/-- A day that was removed is gone. -/
def Shrinks : Prop := ∀ (b : FilesystemStorageBackend) (x x' : σ) (freed : ℕ),
  Backend.removeOldest sys b x = (some (true, freed), x') → sys.size x' < sys.size x

lemma deleteFolder_eq_none_iff {b : FilesystemStorageBackend} {folder : Bytes} {x : σ} :
    (Backend.deleteFolder sys b folder x).1 = none ↔ ¬ Deletable sys b folder x := by
  rw [Backend.deleteFolder, Deletable]
  cases (sys.list (b.folder_path_ ++ [folder]) x).bind
      (sizesOf sys (b.folder_path_ ++ [folder]) x) with
  | none => simp
  | some freed =>
      cases hremoved : (sys.remove_all (b.folder_path_ ++ [folder]) x).1 <;> simp [hremoved]

lemma removeOldest_eq_none_iff {b : FilesystemStorageBackend} {x : σ} :
    (Backend.removeOldest sys b x).1 = none ↔ ¬ CanEvict sys b x := by
  rw [Backend.removeOldest, CanEvict]
  cases Backend.findOldest sys b x with
  | none => simp
  | some oldest =>
      by_cases hday : oldest = FilesystemStorageBackend.kMaxDay
      · simp [hday]
      · simp only [hday, if_false, Option.map_eq_none_iff, deleteFolder_eq_none_iff,
          Option.some.injEq, exists_eq_left', false_or]

/-- What the end of the loop says about every state that eviction goes through. -/
def RoomSpec (b : FilesystemStorageBackend) (need available : ℕ) (x : σ) :
    Storage.Room σ → Prop
  | .done available₁ x₁ => need ≤ available₁ ∧
    Evicts sys b need available x available₁ x₁ ∧
      ∀ available' x', Evicts sys b need available x available' x' →
        (available' < need → CanEvict sys b x') ∧ (need ≤ available' → x' = x₁)
  | .full _ _ => ∀ available' x', Evicts sys b need available x available' x' →
      available' < need ∧ CanEvict sys b x'
  | .thrown _ _ => ∃ available₁ x₁, Evicts sys b need available x available₁ x₁ ∧
      available₁ < need ∧ ¬ CanEvict sys b x₁
  | .hangs => False

/-- A round that removes a day passes on what the rest of the loop says. -/
lemma RoomSpec.cons {b : FilesystemStorageBackend} {need available freed : ℕ} {x x₁ : σ}
    {room : Storage.Room σ} (hlt : available < need) (hcan : CanEvict sys b x)
    (hremove : Backend.removeOldest sys b x = (some (true, freed), x₁))
    (h : RoomSpec sys b need ((available + freed) % 2 ^ 64) x₁ room) :
    RoomSpec sys b need available x room := by
  -- every eviction from here stops at once or goes through the same removal
  have hinv : ∀ {available' x'}, Evicts sys b need available x available' x' →
      (available' = available ∧ x' = x) ∨
        Evicts sys b need ((available + freed) % 2 ^ 64) x₁ available' x' := by
    intro available' x' he
    cases he with
    | stop => exact Or.inl ⟨rfl, rfl⟩
    | evict _ hremove' hrest =>
        rw [hremove] at hremove'
        simp only [Prod.mk.injEq, Option.some.injEq, true_and] at hremove'
        obtain ⟨rfl, rfl⟩ := hremove'
        exact Or.inr hrest
  cases room with
  | done available₂ x₂ =>
      obtain ⟨hfits, he, hall⟩ := h
      refine ⟨hfits, .evict hlt hremove he, fun available' x' he' => ?_⟩
      rcases hinv he' with ⟨rfl, rfl⟩ | he''
      · exact ⟨fun _ => hcan, fun hle => absurd hlt (not_lt.mpr hle)⟩
      · exact hall _ _ he''
  | full available₂ x₂ =>
      intro available' x' he'
      rcases hinv he' with ⟨rfl, rfl⟩ | he''
      · exact ⟨hlt, hcan⟩
      · exact h _ _ he''
  | thrown available₂ x₂ =>
      obtain ⟨available₁, x', he, hstill, hno⟩ := h
      exact ⟨available₁, x', .evict hlt hremove he, hstill, hno⟩
  | hangs => exact h

/-- **How the loop of `Storage::write` ends.** -/
lemma makeRoom_spec (hshrinks : Shrinks sys) (b : FilesystemStorageBackend) (need : ℕ)
    {fuel : ℕ} : ∀ {available : ℕ} {x : σ}, sys.size x < fuel →
      RoomSpec sys b need available x (Storage.makeRoom sys b need fuel available x) := by
  induction fuel with
  | zero => intro available x h; omega
  | succ fuel ih =>
      intro available x hfuel
      rw [Storage.makeRoom]
      by_cases hneed : need ≤ available
      · rw [if_pos hneed]
        refine ⟨hneed, .stop _ _, fun available' x' he => ?_⟩
        cases he with
        | stop => exact ⟨fun h => absurd hneed (not_le.mpr h), fun _ => rfl⟩
        | evict hlt => exact absurd hneed (not_le.mpr hlt)
      · rw [if_neg hneed]
        have hlt : available < need := not_le.mp hneed
        have hnone := removeOldest_eq_none_iff sys (b := b) (x := x)
        obtain ⟨r, hr⟩ : ∃ r, Backend.removeOldest sys b x = r := ⟨_, rfl⟩
        rw [hr] at hnone ⊢
        obtain ⟨_ | ⟨found, freed⟩, x₁⟩ := r
        · exact ⟨available, x, .stop _ _, hlt, hnone.mp rfl⟩
        · have hcan : CanEvict sys b x := by
            by_contra hno
            cases hnone.mpr hno
          cases found with
          | false =>
              intro available' x' he
              cases he with
              | stop => exact ⟨hlt, hcan⟩
              | evict _ hremove =>
                  rw [hr] at hremove
                  cases hremove
          | true =>
              have hless : sys.size x₁ < fuel := by
                have := hshrinks b x x₁ freed hr
                omega
              exact (ih hless).cons sys hlt hcan hr

/-! ## The storage -/

namespace Storage

/-- Whenever eviction has not made enough room yet, it can go on; and where it has, the backend
accepts the request. -/
@[mk_iff]
structure Returns (st : Storage) (request : LogRequest) (x : σ) : Prop where
  evicts : ∀ available x₁, Evicts sys st.backend_ (maxRecordSize request.data.length)
    st.available_bytes_ x available x₁ →
    available < maxRecordSize request.data.length → CanEvict sys st.backend_ x₁
  accepts : ∀ available x₁, Evicts sys st.backend_ (maxRecordSize request.data.length)
    st.available_bytes_ x available x₁ →
    maxRecordSize request.data.length ≤ available → Backend.Accepts sys st.backend_ request x₁

lemma writeToBackend_returned_iff {st : Storage} (hst : Backend.Plain st.backend_) (available : ℕ)
    (request : LogRequest) (x : σ) : (request.data.length < 2 ^ 31 →
      ((writeToBackend sys st available request x).1.returned = true ↔
        Backend.Accepts sys st.backend_ request x)) ∧
      Backend.Plain (writeToBackend sys st available request x).2.1.backend_ := by
  obtain ⟨hiff, hplain⟩ := Backend.write_returned_iff sys hst request x
  simp only [writeToBackend]
  generalize Backend.write sys st.backend_ request x = r at hiff hplain ⊢
  obtain ⟨outcome, b, x₁⟩ := r
  cases outcome with
  | ret written => exact ⟨hiff, hplain⟩
  | thrown => exact ⟨hiff, hplain⟩
  | hangs => exact ⟨hiff, hplain⟩

/-- **When `Storage::write` returns.** -/
lemma write_returned_iff (hshrinks : Shrinks sys) {st : Storage} (hst : Backend.Plain st.backend_)
    (request : LogRequest) (x : σ) : (request.data.length < 2 ^ 31 →
      ((write sys st request x).1.returned = true ↔ Returns sys st request x)) ∧
      Backend.Plain (write sys st request x).2.1.backend_ := by
  have hfuel : sys.size x < sys.size x + 1 := Nat.lt_succ_self _
  rw [write, returns_iff]
  generalize maxRecordSize request.data.length = need
  have hspec : RoomSpec sys st.backend_ need st.available_bytes_ x
      (makeRoom sys st.backend_ need (sys.size x + 1) st.available_bytes_ x) :=
    makeRoom_spec sys hshrinks st.backend_ need hfuel
  generalize makeRoom sys st.backend_ need (sys.size x + 1) st.available_bytes_ x =
    room at hspec ⊢
  cases room with
  | done available x₁ =>
      obtain ⟨hfits, he, hall⟩ := hspec
      obtain ⟨hiff, hplain⟩ := writeToBackend_returned_iff sys hst available request x₁
      rw [afterLoop]
      refine ⟨fun hdata => (hiff hdata).trans ⟨fun h => ?_, fun h => ?_⟩, hplain⟩
      · refine ⟨fun a' x' he' => (hall a' x' he').1, fun a' x' he' hfits' => ?_⟩
        rw [(hall a' x' he').2 hfits']
        exact h
      · exact h.2 available x₁ he hfits
  | full available x₁ =>
      rw [afterLoop]
      refine ⟨fun _ => ⟨fun _ => ⟨fun a' x' he' _ => (hspec a' x' he').2, ?_⟩, fun _ =>
        rfl⟩, hst⟩
      intro a' x' he' hfits'
      exact absurd (hspec a' x' he').1 (not_lt.mpr hfits')
  | thrown available x₁ =>
      obtain ⟨available₂, x₂, he, hlt, hno⟩ := hspec
      rw [afterLoop]
      refine ⟨fun _ => ⟨fun h => by simp at h, fun h => ?_⟩, hst⟩
      exact absurd (h.1 available₂ x₂ he hlt) hno
  | hangs => exact hspec.elim

/-- The constructor installs no fault injector. -/
lemma plain_of_make {folder : Path} {max_size : ℤ} {x₀ x : σ} {st : Storage}
    (h : make sys folder max_size x₀ = some (st, x)) : Backend.Plain st.backend_ := by
  rw [make, Option.bind_eq_some_iff] at h
  obtain ⟨used, -, h⟩ := h
  split at h
  · cases h
    intro e he
    cases he
  · cases h

/-- In every state of a run no stream has a fault injector. -/
lemma plain_of_run (hshrinks : Shrinks sys) {y y' : Storage × σ} (hy : Backend.Plain y.1.backend_)
    {requests : List LogRequest} (hrun : Machine.run (writeStep sys) y requests = some y') :
    Backend.Plain y'.1.backend_ := by
  have hstep : ∀ (z : Storage × σ) (request : LogRequest) (z' : Storage × σ),
      Backend.Plain z.1.backend_ → writeStep sys z request = some z' →
      Backend.Plain z'.1.backend_ := by
    intro z request z' hz hz'
    have hkeep := (write_returned_iff sys hshrinks hz request z.2).2
    rw [writeStep, Option.some.injEq] at hz'
    rwa [hz'] at hkeep
  exact Machine.run_invariant_of_step hstep hy hrun

end Storage

end System

/-! ## Disks -/

namespace Disk

variable {host : DiskHost}

/-- A spelled number is a name. -/
lemma to_string_name (z : ℤ) : to_string z ≠ [] ∧ to_string z ≠ [46] ∧
    to_string z ≠ [46, 46] := by
  have hdigits : ∀ (n : ℕ) (b : UInt8), isDigit b = false → b ∉ toDec n := fun n b hb =>
    notMem_toDec hb n
  have hdot : (46 : UInt8) ∉ to_string z := by
    rw [to_string]
    split_ifs
    · simp [hdigits _ 46 (by decide)]
    · exact hdigits _ 46 (by decide)
  have hne : to_string z ≠ [] := by
    rw [to_string]
    split_ifs
    · simp
    · exact toDec_ne_nil _
  refine ⟨hne, fun h => ?_, fun h => ?_⟩
  · simp [h] at hdot
  · simp [h] at hdot

/-- The disk with a tree of fewer entries. -/
def pruned (d : Disk) (p : Path) : Disk := { d with tree := d.tree.prune p }

variable {b : FilesystemStorageBackend} {d d' : Disk} {freed : ℕ}

/-- A root that could be listed leads to a directory. -/
lemma root_of_dayDirs {dirs : List Bytes}
    (h : System.Backend.dayDirs (system host) b d = some dirs) :
    ∃ top, d.tree.resolve b.folder_path_ = .there top ∧ d.tree.node top = some .dir := by
  obtain ⟨names, hnames, -⟩ := Option.bind_eq_some_iff.mp h
  obtain ⟨-, top, htop, hdir, -⟩ := list_eq_some_iff.mp hnames
  exact ⟨top, htop, hdir⟩

/-- What `deleteFolder` does when it gets to its end. -/
lemma deleteFolder_eq_some {name : Bytes}
    (h : System.Backend.deleteFolder (system host) b name d = (some freed, d')) :
    ∃ top names, d.tree.resolve b.folder_path_ = .there top ∧
      list host (b.folder_path_ ++ [name]) d = some names ∧
      System.sizesOf (system host) (b.folder_path_ ++ [name]) d names = some freed ∧
      host.refuses d.calls .remove_all (Path.string (b.folder_path_ ++ [name])) = false ∧
      d' = d.pruned (top ++ [name]) := by
  simp only [System.Backend.deleteFolder] at h
  cases hmeasured : ((system host).list (b.folder_path_ ++ [name]) d).bind
      (System.sizesOf (system host) (b.folder_path_ ++ [name]) d) with
  | none => simp [hmeasured] at h
  | some freed' =>
      rw [hmeasured] at h
      obtain ⟨names, hlist, hsizes⟩ := Option.bind_eq_some_iff.mp hmeasured
      simp only at h
      split_ifs at h with hremoved
      · simp only [Prod.mk.injEq, Option.some.injEq] at h
        obtain ⟨rfl, hd'⟩ := h
        have hall : remove_all host (b.folder_path_ ++ [name]) d = (true, d') :=
          Prod.ext hremoved hd'
        obtain ⟨hrefuses, top, htop, rfl⟩ := remove_all_eq_true hall
        exact ⟨top, names, htop, hlist, hsizes, hrefuses, rfl⟩
      · simp at h

/-- **What a removal takes away**: an entry of the root, with everything below it. -/
lemma removeOldest_eq_true
    (h : System.Backend.removeOldest (system host) b d = (some (true, freed), d')) :
    ∃ oldest top names n, System.Backend.findOldest (system host) b d = some oldest ∧
      oldest ≠ FilesystemStorageBackend.kMaxDay ∧
      d.tree.resolve b.folder_path_ = .there top ∧
      d.tree.lookup (top ++ [to_string oldest]) = some n ∧
      list host (b.folder_path_ ++ [to_string oldest]) d = some names ∧
      System.sizesOf (system host) (b.folder_path_ ++ [to_string oldest]) d names = some freed ∧
      host.refuses d.calls .remove_all (Path.string (b.folder_path_ ++ [to_string oldest])) =
        false ∧
      d' = d.pruned (top ++ [to_string oldest]) := by
  rw [System.Backend.removeOldest] at h
  cases hfind : System.Backend.findOldest (system host) b d with
  | none => simp [hfind] at h
  | some oldest =>
      rw [hfind] at h
      simp only at h
      split_ifs at h with hday
      · simp at h
      obtain ⟨dirs, hdirs, -⟩ := Option.map_eq_some_iff.mp hfind
      obtain ⟨top, htop, hdir⟩ := root_of_dayDirs hdirs
      obtain ⟨hmapped, rfl⟩ := Prod.mk.inj h
      obtain ⟨freed', hfreed, heq⟩ := Option.map_eq_some_iff.mp hmapped
      obtain rfl : freed' = freed := (Prod.mk.inj heq).2
      obtain ⟨top', names, htop', hlist, hsizes, hrefuses, hpruned⟩ :=
        deleteFolder_eq_some (Prod.ext hfreed rfl)
      rw [htop, Paths.Arrival.there.injEq] at htop'
      subst htop'
      obtain ⟨-, q, hq, -⟩ := list_eq_some_iff.mp hlist
      obtain ⟨n, hn⟩ := DiskTree.exists_of_resolve htop hdir (to_string_name oldest) hq
      exact ⟨oldest, top, names, n, rfl, hday, htop, hn, hlist, hsizes, hrefuses, hpruned⟩

/-- A day that was removed is gone. -/
lemma shrinks (host : DiskHost) : System.Shrinks (system host) := by
  intro b d d' freed h
  obtain ⟨oldest, top, names, n, -, -, -, hn, -, -, -, rfl⟩ := removeOldest_eq_true h
  exact Paths.length_prune_lt hn

end Disk

/-- **In every state a storage on a disk can get into, `Storage::write` returns exactly when**
eviction can go on as long as it has to and the backend accepts the request.  A message has less
than `2 ^ 31` bytes. -/
theorem write_returns_iff {host : DiskHost} {folder : Path} {max_size : ℤ} {d₀ d₁ d : Disk}
    {st₀ st : Storage}
    (hmake : System.Storage.make (Disk.system host) folder max_size d₀ = some (st₀, d₁))
    {requests : List LogRequest}
    (hrun : Machine.run (System.Storage.writeStep (Disk.system host)) (st₀, d₁) requests =
      some (st, d))
    {request : LogRequest} (hdata : request.data.length < 2 ^ 31) :
    (∃ v, (System.Storage.write (Disk.system host) st request d).1 = .ret v) ↔
      System.Storage.Returns (Disk.system host) st request d := by
  have hplain := System.Storage.plain_of_run (Disk.system host) (Disk.shrinks host)
    (System.Storage.plain_of_make (Disk.system host) hmake) hrun
  rw [← Outcome.returned_iff]
  exact (System.Storage.write_returned_iff (Disk.system host) (Disk.shrinks host) hplain request
    d).1 hdata

/-- A first request whose files can be named is accepted. -/
theorem write_returns_fresh :
    let hello : LogRequest := ⟨ascii "a", 0, ascii "hello", 1704067200000000000⟩
    ∃ st d, System.Storage.make (Disk.system .january) [ascii "r"] 1000 (.bare [ascii "r"]) =
        some (st, d) ∧ System.Storage.Returns (Disk.system .january) st hello d := by
  intro hello
  obtain ⟨⟨st, d⟩, hmake⟩ : ∃ x, System.Storage.make (Disk.system .january)
    [ascii "r"] 1000
    (.bare [ascii "r"]) = some x := Option.isSome_iff_exists.mp (by decide +kernel)
  have hrun : Machine.run (System.Storage.writeStep (Disk.system .january)) (st, d) [] =
    some (st, d) := rfl
  refine ⟨st, d, hmake, (write_returns_iff hmake hrun (by decide +kernel)).mp ?_⟩
  have hrets : ((System.Storage.make (Disk.system .january) [ascii "r"] 1000
      (.bare [ascii "r"])).map fun x =>
        (System.Storage.write (Disk.system .january) x.1 hello x.2).1) = some (.ret 29) := by
    decide +kernel
  rw [hmake] at hrets
  exact ⟨29, Option.some.inj hrets⟩

/-- An exception leaves `Storage::write` for a channel name of 250 bytes on an empty root, for an
ordinary request when the root holds a directory that the retention code takes for a day but cannot
spell, and for one whose day directory exists and may not be searched. -/
theorem write_throws :
    let long : LogRequest := ⟨List.replicate 250 97, 0, ascii "x", 1704067200000000000⟩
    let hello : LogRequest := ⟨ascii "a", 0, ascii "hello", 1704067200000000000⟩
    let zeroDay : Disk := (Disk.bare [ascii "r"]).put [ascii "r", ascii "0020240101"] .dir
    let closed : DiskHost := { DiskHost.january with
      refuses := fun _ call text => call = .exists_ && (ascii "/r/20240101/").isPrefixOf text }
    let someDay : Disk := (Disk.bare [ascii "r"]).put [ascii "r", ascii "20240101"] .dir
    ((System.Storage.make (Disk.system .january) [ascii "r"] 1000 (.bare [ascii "r"])).map fun x =>
      (System.Storage.write (Disk.system .january) x.1 long x.2).1) = some .thrown ∧
    ((System.Storage.make (Disk.system .january) [ascii "r"] 100 zeroDay).map fun x =>
      (System.Storage.write (Disk.system .january) x.1 hello x.2).1) = some .thrown ∧
    ((System.Storage.make (Disk.system closed) [ascii "r"] 1000 someDay).map fun x =>
      (System.Storage.write (Disk.system closed) x.1 hello x.2).1) = some .thrown := by
  refine ⟨by decide +kernel, by decide +kernel, by decide +kernel⟩

end Tracebox
