import Tracebox.Hosted.Storage
import Tracebox.Storage.Confinement

/-!
# What a write keeps to

A write makes many calls, but the calls are of few kinds: a file is opened under a name that begins
with the time of day, bytes go to a file that was opened so, and the rest changes no file.  What
each of these calls keeps to, every operation of a stream keeps to, and every write to a folder.

* `Keeps` — the calls a stream makes in its directory stay within a relation between states.
* `StreamWriter.write_kept`, `Folder.writeChannel_kept` — **so does every operation**, on any
  system and whatever comes of the calls.
-/

namespace Tracebox

open Bytes

namespace System

variable {σ : Type}

/-- The calls that a folder makes for its directory stay within a relation: making the directory,
opening a name in it that begins with a digit, and writing to the files that were opened so.  The
first two are made only in a state that is `ready` for them. -/
structure Keeps (sys : System σ) (dir : Path) (ready : σ → Prop) (linked : σ → ℕ → Prop)
    (R : σ → σ → Prop) : Prop where
  refl : ∀ x, R x x
  trans : ∀ {x y z}, R x y → R y z → R x z
  stays : ∀ {x y}, R x y → ready x → ready y
  mono : ∀ {x y i}, R x y → linked x i → linked y i
  create : ∀ {x}, ready x → R x (sys.create_directories dir x).2
  open_ : ∀ {x b} rest, ready x → isDigit b = true → R x (sys.open_ dir (b :: rest) x).2 ∧
    ((sys.open_ dir (b :: rest) x).1.is_open = true →
      linked (sys.open_ dir (b :: rest) x).2 (sys.open_ dir (b :: rest) x).1.inode)
  write : ∀ {x f} bytes, (f.is_open = true → linked x f.inode) → R x (sys.write f bytes x).2
  flush : ∀ f x, R x (sys.flush f x).2
  inject : ∀ x, R x (sys.inject x).2
  now : ∀ x, R x (sys.now x).2

variable {sys : System σ} {dir : Path} {ready : σ → Prop} {linked : σ → ℕ → Prop}
  {R : σ → σ → Prop}

/-! ## A stream -/

namespace StreamWriter

open Tracebox.StreamWriter (Candidate candidate_digit live live_eq_some_iff)

/-- The stream's folder is the directory, and its open files were opened there. -/
structure Inside (dir : Path) (linked : σ → ℕ → Prop) (x : σ)
    (s : StreamWriter) : Prop where
  folder : s.folder_ = dir
  index : ∀ f, s.index_ = some f → f.is_open = true → linked x f.inode
  data : ∀ f, s.data_ = some f → f.is_open = true → linked x f.inode

lemma Inside.mono (hk : Keeps sys dir ready linked R) {s : StreamWriter} {x y : σ}
    (hs : Inside dir linked x s) (h : R x y) : Inside dir linked y s :=
  ⟨hs.folder, fun f hf ho => hk.mono h (hs.index f hf ho),
    fun f hf ho => hk.mono h (hs.data f hf ho)⟩

lemma Inside.closed {s : StreamWriter} {x : σ} (hs : Inside dir linked x s) (f : FileIo) :
    Inside dir linked x { s with index_ := some f.close } := by
  refine ⟨hs.folder, fun g hg hopen => ?_, hs.data⟩
  cases hg
  cases hopen

/-- The name that the loop settles on is one of the candidates. -/
lemma searchName_candidate {dir : Path} {base : Bytes} {x : σ} {file_name : Bytes} {fuel : ℕ} :
    ∀ {suffix : ℕ} {name : Bytes}, Candidate base name →
      searchName sys dir base x fuel suffix name = .found file_name →
      Candidate base file_name := by
  induction fuel with
  | zero => intro suffix name _ h; cases h
  | succ fuel ih =>
      intro suffix name hname h
      rw [searchName] at h
      split at h
      · cases h
      · cases h
        exact hname
      · exact ih (Or.inr ⟨suffix, rfl⟩) h

variable (hk : Keeps sys dir ready linked R)

include hk

/-- Calls that each stay within the relation. -/
lemma tryAll_kept {x : σ} {calls : List (σ → Bool × σ)}
    (h : ∀ call ∈ calls, ∀ y, R x y → R y (call y).2) :
    ∀ y, R x y → R x (tryAll calls y).2 := by
  induction calls with
  | nil => exact fun y hy => hy
  | cons call calls ih =>
      intro y hy
      have hone := hk.trans hy (h call List.mem_cons_self y hy)
      rw [tryAll]
      split_ifs
      · exact ih (fun c hc => h c (List.mem_cons_of_mem _ hc)) _ hone
      · exact hone

/-- Appends to a file, then a flush when one is due. -/
lemma blocks_kept {x : σ} {f : FileIo} (hf : f.is_open = true → linked x f.inode) (flush : Bool)
    (blocks : List Bytes) : R x (tryAll (blocks.map (sys.write f) ++ flushIf sys flush f) x).2 := by
  refine tryAll_kept hk (fun call hcall y hy => ?_) x (hk.refl x)
  rcases List.mem_append.mp hcall with hc | hc
  · obtain ⟨bytes, -, rfl⟩ := List.mem_map.mp hc
    exact hk.write bytes fun hopen => hk.mono hy (hf hopen)
  · unfold flushIf at hc
    split_ifs at hc
    · rw [List.mem_singleton.mp hc]
      exact hk.flush f y
    · simp at hc

lemma writeHeader_kept {x : σ} {f : FileIo} (hf : f.is_open = true → linked x f.inode)
    (s : StreamWriter) (time_ns : UInt64) (type : UInt8) :
    R x (writeHeader sys s f time_ns type x).2 := by
  have hall : R x (tryAll (([(s.header time_ns type).encode] : List Bytes).map (sys.write f) ++
    flushIf sys true f) x).2 := blocks_kept hk hf true _
  rw [writeHeader]
  split_ifs
  · change R x (if (tryAll (([(s.header time_ns type).encode] : List Bytes).map (sys.write f) ++
      flushIf sys true f) x).1 = true then _ else _ : ℤ × σ).2
    split_ifs
    · exact hall
    · exact hall
  · exact hk.refl x

lemma reopenData_kept {s : StreamWriter} {x : σ} (hs : Inside dir linked x s) (hx : ready x)
    {file_name : Bytes} {time_ns : UInt64}
    (hname : Candidate (s.fileName sys.host time_ns) file_name) (index : FileIo) (result : ℤ) :
    R x (reopenData sys s file_name index time_ns result x).2.2 ∧
      Inside dir linked (reopenData sys s file_name index time_ns result x).2.2
        (reopenData sys s file_name index time_ns result x).2.1 := by
  obtain ⟨b, rest, hb, hrel⟩ := candidate_digit hname dotData
  obtain rfl := hs.folder
  obtain ⟨hopened, hlinked⟩ := hk.open_ rest hx hb
  simp only [reopenData, hrel]
  generalize sys.open_ s.folder_ (b :: rest) x = o at hopened hlinked ⊢
  have hheader : R o.2 (if o.1.is_open then writeHeader sys s o.1 time_ns kDataFile o.2
      else (-EINVAL, o.2)).2 := by
    split_ifs
    · exact writeHeader_kept hk hlinked s time_ns kDataFile
    · exact hk.refl o.2
  generalize (if o.1.is_open then writeHeader sys s o.1 time_ns kDataFile o.2
    else (-EINVAL, o.2)) = r at hheader ⊢
  have hall := hk.trans hopened hheader
  have hin : Inside s.folder_ linked r.2
      { s with data_ := some o.1, offset_ := UInt32.ofNat sizeofLogFileHeader } := by
    refine ⟨rfl, (hs.mono hk hall).index, fun f hf hopen => ?_⟩
    cases hf
    exact hk.mono hheader (hlinked hopen)
  split_ifs
  · exact ⟨hall, hin.closed index⟩
  · have hnow := hk.now r.2
    exact ⟨hk.trans hall hnow, rfl, (hin.mono hk hnow).index, (hin.mono hk hnow).data⟩

lemma reopenAs_kept {s : StreamWriter} {x : σ} (hs : Inside dir linked x s) (hx : ready x)
    {file_name : Bytes} {time_ns : UInt64}
    (hname : Candidate (s.fileName sys.host time_ns) file_name) :
    R x (reopenAs sys s file_name time_ns x).2.2 ∧
      Inside dir linked (reopenAs sys s file_name time_ns x).2.2
        (reopenAs sys s file_name time_ns x).2.1 := by
  obtain ⟨b, rest, hb, hrel⟩ := candidate_digit hname dotIdx
  obtain rfl := hs.folder
  obtain ⟨hopened, hlinked⟩ := hk.open_ rest hx hb
  simp only [reopenAs, hrel]
  generalize sys.open_ s.folder_ (b :: rest) x = o at hopened hlinked ⊢
  have hin : Inside s.folder_ linked o.2 { s with index_ := some o.1 } := by
    refine ⟨rfl, fun f hf hopen => ?_, (hs.mono hk hopened).data⟩
    cases hf
    exact hlinked hopen
  split_ifs
  · have hheader := writeHeader_kept hk hlinked { s with index_ := some o.1 } time_ns kIndexFile
    exact ⟨hk.trans hopened hheader, (hin.mono hk hheader).closed o.1⟩
  · have hheader := writeHeader_kept hk hlinked { s with index_ := some o.1 } time_ns kIndexFile
    have hall := hk.trans hopened hheader
    obtain ⟨hdata, hin'⟩ := reopenData_kept hk (hin.mono hk hheader)
      (hk.stays hall hx) hname o.1
      (writeHeader sys { s with index_ := some o.1 } o.1 time_ns kIndexFile o.2).1
    exact ⟨hk.trans hall hdata, hin'⟩
  · have hheader := writeHeader_kept hk hlinked { s with index_ := some o.1 } time_ns kIndexFile
    have hnow := hk.now (writeHeader sys { s with index_ := some o.1 } o.1 time_ns kIndexFile o.2).2
    have hrest := (hin.mono hk hheader).mono hk hnow
    exact ⟨hk.trans hopened (hk.trans hheader hnow), rfl, hrest.index, hrest.data⟩
  · exact ⟨hopened, hin⟩

lemma reopenFile_kept {s : StreamWriter} {x : σ} (hs : Inside dir linked x s) (hx : ready x)
    (time_ns : UInt64) : R x (reopenFile sys s time_ns x).2.2 ∧
      Inside dir linked (reopenFile sys s time_ns x).2.2 (reopenFile sys s time_ns x).2.1 := by
  have hs' : Inside dir linked x { s with offset_ := 0 } := ⟨hs.folder, hs.index, hs.data⟩
  simp only [reopenFile]
  split
  · exact ⟨hk.refl x, hs'⟩
  · exact ⟨hk.refl x, hs'⟩
  · rename_i file_name hfresh
    exact reopenAs_kept hk hs' hx (searchName_candidate (Or.inl rfl) hfresh)

lemma closeHandle_kept (h : Option FileIo) (x : σ) : R x (closeHandle sys h x).2 := by
  unfold closeHandle
  split
  · exact hk.flush _ x
  · exact hk.refl x

omit hk in
lemma closeHandle_open {h : Option FileIo} {x : σ} {f : FileIo}
    (hf : (closeHandle sys h x).1 = some f) : f.is_open = false := by
  cases h with
  | none => simp [closeHandle, live] at hf
  | some g =>
      cases hopen : g.is_open with
      | true =>
          simp only [closeHandle, live, Option.filter, hopen, if_true, Option.some.injEq] at hf
          rw [← hf]
          rfl
      | false =>
          simp only [closeHandle, live, Option.filter, hopen, Bool.false_eq_true, if_false,
            Option.some.injEq] at hf
          rw [← hf]
          exact hopen

lemma closeFile_kept {s : StreamWriter} (hfolder : s.folder_ = dir) (x : σ) :
    R x (closeFile sys s x).2 ∧
      Inside dir linked (closeFile sys s x).2 (closeFile sys s x).1 := by
  refine ⟨hk.trans (closeHandle_kept hk s.index_ x) (closeHandle_kept hk s.data_ _), hfolder,
    fun f hf hopen => ?_, fun f hf hopen => ?_⟩
  · exact absurd hopen (by simp [closeHandle_open hf])
  · exact absurd hopen (by simp [closeHandle_open hf])

lemma inject_kept (s : StreamWriter) (x : σ) : R x (inject sys s x).2 := by
  rw [inject]
  split_ifs
  · exact hk.inject x
  · exact hk.refl x

omit hk in
/-- A handle of the stream, or one that is not open. -/
lemma linked_getD {x : σ} {h : Option FileIo}
    (hh : ∀ f, h = some f → f.is_open = true → linked x f.inode) :
    (h.getD .unopened).is_open = true → linked x (h.getD .unopened).inode := by
  cases h with
  | none => nofun
  | some f => exact hh f rfl

lemma commitRecord_kept {s : StreamWriter} {x : σ} (hs : Inside dir linked x s) (flush : Bool)
    (time_ns : UInt64) (data : Bytes) (result : ℤ) :
    R x (commitRecord sys s flush time_ns data result x).2.2 ∧
      Inside dir linked (commitRecord sys s flush time_ns data result x).2.2
        (commitRecord sys s flush time_ns data result x).2.1 := by
  have hfirst : R x (tryAll (([toLE 8 time_ns.toNat, toLE 4 (UInt32.ofNat data.length).toNat,
      data.take (UInt32.ofNat data.length).toNat] : List Bytes).map
        (sys.write (s.data_.getD .unopened)) ++ flushIf sys flush (s.data_.getD .unopened)) x).2 :=
    blocks_kept hk (linked_getD hs.data) flush _
  have hsecond : ∀ y, R x y → R y (tryAll (([toLE 8 time_ns.toNat, toLE 4 s.offset_.toNat] :
      List Bytes).map (sys.write (s.index_.getD .unopened)) ++
        flushIf sys flush (s.index_.getD .unopened)) y).2 := fun y hy =>
    blocks_kept hk (linked_getD (hs.mono hk hy).index) flush _
  simp only [commitRecord]
  simp only [List.map_cons, List.map_nil] at hfirst hsecond
  split
  · exact ⟨hfirst, hs.mono hk hfirst⟩
  · have hinject := hk.trans hfirst (inject_kept hk s _)
    split
    · exact ⟨hinject, hs.mono hk hinject⟩
    · have hall := hk.trans hinject (hsecond _ hinject)
      split
      · exact ⟨hall, hs.mono hk hall⟩
      · exact ⟨hall, hs.folder, (hs.mono hk hall).index, (hs.mono hk hall).data⟩

lemma writeFixed_kept {s : StreamWriter} {x : σ} (hs : Inside dir linked x s) {f : FileIo}
    (hf : s.index_ = some f) (flush : Bool) (time_ns : UInt64) (data : Bytes) :
    R x (writeFixed sys s f flush time_ns data x).2.2 ∧
      Inside dir linked (writeFixed sys s f flush time_ns data x).2.2
        (writeFixed sys s f flush time_ns data x).2.1 := by
  have hall : R x (tryAll (([toLE 8 time_ns.toNat, data] : List Bytes).map (sys.write f) ++
    flushIf sys flush f) x).2 := blocks_kept hk (hs.index f hf) flush _
  simp only [List.map_cons, List.map_nil] at hall
  simp only [writeFixed]
  split
  · split
    · exact ⟨hall, hs.mono hk hall⟩
    · exact ⟨hall, hs.mono hk hall⟩
  · exact ⟨hk.refl x, hs⟩

lemma writeVariable_kept {s : StreamWriter} {x : σ} (hs : Inside dir linked x s) (hx : ready x)
    (flush : Bool) (time_ns : UInt64) (data : Bytes) :
    R x (writeVariable sys s flush time_ns data x).2.2 ∧
      Inside dir linked (writeVariable sys s flush time_ns data x).2.2
        (writeVariable sys s flush time_ns data x).2.1 := by
  simp only [writeVariable]
  split
  · exact ⟨hk.refl x, hs⟩
  · split
    · obtain ⟨hclose, hclosed⟩ := closeFile_kept hk hs.folder x
      obtain ⟨hreopen, hin⟩ := reopenFile_kept hk hclosed (hk.stays hclose hx) time_ns
      have hall := hk.trans hclose hreopen
      split
      · rename_i ret s₁ x₁ heq
        rw [heq] at hin hall
        split
        · exact ⟨hall, hin⟩
        · obtain ⟨hcommit, hin'⟩ := commitRecord_kept hk hin flush time_ns data ret
          exact ⟨hk.trans hall hcommit, hin'⟩
      · exact ⟨hall, hin⟩
    · exact commitRecord_kept hk hs flush time_ns data 0

/-- **Every operation of a stream keeps to what its calls keep to.** -/
theorem write_kept {s : StreamWriter} {x : σ} (hs : Inside dir linked x s) (hx : ready x)
    (time_ns : UInt64) (data : Bytes) : R x (write sys s time_ns data x).2.2 ∧
      Inside dir linked (write sys s time_ns data x).2.2 (write sys s time_ns data x).2.1 := by
  have hnow := hk.now x
  have hs' := hs.mono hk hnow
  simp only [write]
  split
  · exact ⟨hk.refl x, hs⟩
  · rename_i f hf
    split
    · obtain ⟨hwrite, hin⟩ := writeFixed_kept hk hs' (live_eq_some_iff.mp hf).1
        (flushDue sys s x)
        time_ns data
      exact ⟨hk.trans hnow hwrite, hin⟩
    · obtain ⟨hwrite, hin⟩ := writeVariable_kept hk hs' (hk.stays hnow hx) (flushDue sys s x)
        time_ns data
      exact ⟨hk.trans hnow hwrite, hin⟩

end StreamWriter

/-! ## A folder -/

namespace Folder

/-- The folder's path is the directory, and its streams keep to it. -/
structure Inside (dir : Path) (linked : σ → ℕ → Prop) (x : σ) (f : Folder) : Prop where
  folder : f.folder_ = dir
  streams : ∀ e ∈ f.files_, StreamWriter.Inside dir linked x e.2

variable (hk : Keeps sys dir ready linked R)

include hk

lemma writeTo_kept {f : Folder} {s : StreamWriter} {x : σ} (hf : Inside dir linked x f)
    (hs : StreamWriter.Inside dir linked x s) (hx : ready x) (request : LogRequest) :
    R x (writeTo sys f s request x).2.2 ∧
      Inside dir linked (writeTo sys f s request x).2.2 (writeTo sys f s request x).2.1 := by
  obtain ⟨hwrite, hin⟩ := StreamWriter.write_kept hk hs hx request.time_ns request.data
  refine ⟨hwrite, hf.folder, fun e he => ?_⟩
  obtain ⟨e₀, he₀, rfl⟩ := List.mem_map.mp he
  by_cases hc : e₀.1 = request.channel
  · rw [if_pos hc]
    exact hin
  · rw [if_neg hc]
    exact (hf.streams e₀ he₀).mono hk hwrite

/-- **Every write to a folder keeps to what the calls of its streams keep to.** -/
theorem writeChannel_kept {f : Folder} {x : σ} (hf : Inside dir linked x f) (hx : ready x)
    (request : LogRequest) : R x (writeChannel sys f request x).2.2 ∧
      Inside dir linked (writeChannel sys f request x).2.2 (writeChannel sys f request x).2.1 := by
  cases hlook : f.files_.lookup request.channel with
  | some s =>
      have hmem : (request.channel, s) ∈ f.files_ := by
        obtain ⟨l₁, l₂, heq, -⟩ := List.lookup_eq_some_iff.mp hlook
        rw [heq]
        simp
      simp only [writeChannel, hlook]
      exact writeTo_kept hk hf (hf.streams _ hmem) hx request
  | none =>
      have hfresh : StreamWriter.Inside dir linked x
          { folder_ := f.folder_, name_ := request.channel, record_size_ := request.size } :=
        ⟨hf.folder, nofun, nofun⟩
      obtain ⟨hopen, hin⟩ :
        R x (StreamWriter.openFile sys { folder_ := f.folder_ } request x).2.2 ∧
          StreamWriter.Inside dir linked
            (StreamWriter.openFile sys { folder_ := f.folder_ } request x).2.2
            (StreamWriter.openFile sys { folder_ := f.folder_ } request x).2.1 :=
        StreamWriter.reopenFile_kept hk hfresh hx request.time_ns
      simp only [writeChannel, hlook]
      generalize StreamWriter.openFile sys { folder_ := f.folder_ } request x = o at hopen hin ⊢
      have hadd : Inside dir linked o.2.2
          { f with files_ := f.files_ ++ [(request.channel, o.2.1)] } := by
        refine ⟨hf.folder, fun e he => ?_⟩
        rcases List.mem_append.mp he with he | he
        · exact (hf.streams e he).mono hk hopen
        · rw [List.mem_singleton.mp he]
          exact hin
      split
      · split
        · exact ⟨hopen, hadd⟩
        · obtain ⟨hwrite, hin'⟩ := writeTo_kept hk hadd hin (hk.stays hopen hx) request
          exact ⟨hk.trans hopen hwrite, hin'⟩
      · exact ⟨hopen, hadd⟩

/-- Closing the streams of a folder only flushes. -/
lemma close_kept (f : Folder) (x : σ) : R x (close sys f x) := by
  unfold close
  induction f.files_ generalizing x with
  | nil => exact hk.refl x
  | cons e es ih =>
      have hflush : R x (StreamWriter.closeFile sys e.2 x).2 :=
        hk.trans (StreamWriter.closeHandle_kept hk e.2.index_ x)
          (StreamWriter.closeHandle_kept hk e.2.data_ _)
      exact hk.trans hflush (ih _)

omit hk in
/-- The folder's day does not change while it is written to. -/
lemma yyyymmdd_writeChannel (f : Folder) (request : LogRequest) (x : σ) :
    (writeChannel sys f request x).2.1.yyyymmdd_ = f.yyyymmdd_ := by
  simp only [writeChannel]
  split
  · rfl
  · split
    · split
      · rfl
      · rfl
    · rfl

/-- A folder's first write makes its directory. -/
lemma write_new_kept {root : Path} {request : LogRequest} {x : σ} (hx : ready x)
    (hdir : dir = root ++ [toDec (sys.host.cal.Time2YYYYMMDD request.time_ns)]) :
    let r := write sys { folder_ := root } request x
    R x r.2.2 ∧ (r.2.1.yyyymmdd_ ≠ 0 →
      r.2.1.yyyymmdd_ = sys.host.cal.Time2YYYYMMDD request.time_ns ∧
        Inside dir linked r.2.2 r.2.1) := by
  subst hdir
  have hwrite : ∀ y, R x y → ∀ day,
      let r := writeChannel sys
        ⟨day, root ++ [toDec (sys.host.cal.Time2YYYYMMDD request.time_ns)], []⟩ request y
      R x r.2.2 ∧ r.2.1.yyyymmdd_ = day ∧
        Inside (root ++ [toDec (sys.host.cal.Time2YYYYMMDD request.time_ns)]) linked
          r.2.2 r.2.1 := by
    intro y hy day
    obtain ⟨hchannel, hin⟩ := writeChannel_kept hk (f := ⟨day, _, []⟩) ⟨rfl, by simp⟩
      (hk.stays hy hx) request
    exact ⟨hk.trans hy hchannel, yyyymmdd_writeChannel _ _ _, hin⟩
  have hmake := hk.create hx
  simp only [write, if_true, create]
  cases sys.there (root ++ [toDec (sys.host.cal.Time2YYYYMMDD request.time_ns)]) x with
  | none => exact ⟨hk.refl x, fun _ => ⟨rfl, rfl, by simp⟩⟩
  | some there =>
      cases there with
      | true =>
          obtain ⟨hall, hday, hin⟩ := hwrite x (hk.refl x) _
          exact ⟨hall, fun _ => ⟨hday, hin⟩⟩
      | false =>
          generalize sys.create_directories
            (root ++ [toDec (sys.host.cal.Time2YYYYMMDD request.time_ns)]) x = c at hmake
          obtain ⟨_ | _ | _, y⟩ := c
          · exact ⟨hmake, fun _ => ⟨rfl, rfl, by simp⟩⟩
          · exact ⟨hmake, fun h => absurd rfl h⟩
          · obtain ⟨hall, hday, hin⟩ := hwrite y hmake _
            exact ⟨hall, fun _ => ⟨hday, hin⟩⟩

end Folder

/-! ## The backend -/

namespace Backend

/-- The active folder keeps to the directory of its day. -/
structure Inside (root : Path) (linked : ℕ → σ → ℕ → Prop) (x : σ)
    (b : FilesystemStorageBackend) : Prop where
  path : b.folder_path_ = root
  folder : b.folder_.yyyymmdd_ ≠ 0 → Folder.Inside (root ++ [toDec b.folder_.yyyymmdd_])
    (linked b.folder_.yyyymmdd_) x b.folder_

/-- **Every write to the backend keeps to what the calls for the request's day keep to.** -/
theorem write_kept {root : Path} {ready : ℕ → σ → Prop}
    {linked : ℕ → σ → ℕ → Prop} {R : ℕ → σ → σ → Prop}
    (hk : ∀ day, Keeps sys (root ++ [toDec day]) (ready day) (linked day) (R day))
    {b : FilesystemStorageBackend} {x : σ} (hb : Inside root linked x b) {request : LogRequest}
    (hx : ready (sys.host.cal.Time2YYYYMMDD request.time_ns) x) :
    R (sys.host.cal.Time2YYYYMMDD request.time_ns) x (write sys b request x).2.2 ∧
      Inside root linked (write sys b request x).2.2 (write sys b request x).2.1 := by
  obtain ⟨rfl, hfolder⟩ := hb
  have hday := (sys.host.cal.day_bounds request.time_ns).1
  have hk' := hk (sys.host.cal.Time2YYYYMMDD request.time_ns)
  by_cases hsame : b.folder_.sameDay sys.host request.time_ns = true
  · have hd : b.folder_.yyyymmdd_ = sys.host.cal.Time2YYYYMMDD request.time_ns := by
      simpa [Folder.sameDay] using hsame
    have hin := hfolder (by omega)
    rw [hd] at hin
    obtain ⟨hwrite, hin'⟩ := Folder.writeChannel_kept hk' hin hx request
    have hskip : Folder.write sys b.folder_ request x =
      Folder.writeChannel sys b.folder_ request x :=
      if_neg (by omega)
    simp only [write, hsame, if_true, hskip]
    refine ⟨hwrite, rfl, fun _ => ?_⟩
    simp only [Folder.yyyymmdd_writeChannel, hd]
    exact hin'
  · have hclose := Folder.close_kept hk' b.folder_ x
    obtain ⟨hwrite, hin⟩ := Folder.write_new_kept hk' (hk'.stays hclose hx) rfl
    simp only [write, hsame, Bool.false_eq_true, if_false]
    refine ⟨hk'.trans hclose hwrite, rfl, fun h => ?_⟩
    obtain ⟨hd, hin'⟩ := hin h
    rw [hd]
    exact hin'

end Backend

end System

end Tracebox
