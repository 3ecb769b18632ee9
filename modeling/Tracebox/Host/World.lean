import Tracebox.Lib.Tape
import Tracebox.Host.FileSystem

/-!
# The world the writer acts on

A world is a directory tree together with the journal of everything that was appended or flushed
through a file handle.  A file's content is what the journal says was appended to its inode, so
the content at an earlier moment is read off an earlier cut of the same journal.

`FileIo` is the file boundary of `file_io.h`.  Its calls consult the host's script: a call may
succeed, fail after some of the bytes were appended, or (where the boundary can throw) throw.
Appends through a handle reach the inode whether or not a path still leads to it.

Two things are simpler here than on a real host.  The tree has neither links nor special files nor
permissions, and a byte that was appended counts in the size of its file at once, where the
`std::ofstream` of `StandardFileIO` may hold it back until it is flushed or closed.  The code is run
without the first assumption on `Tracebox.Host.Disk`, and without the second one there and in
`Tracebox.Hosted.Buffered`.

Four relations say what happened between two worlds: `World.Reaches` (effects one after the other),
and what is true of all of them, `World.Grows` (names stay, files only get longer); `World.Extends`
(these bytes were appended, nothing else), and `World.Adds` (only new files were touched).
-/

namespace Tracebox

open Bytes

/-! ## The host -/

/-- What the host does to one call at the file boundary. -/
inductive IoOutcome where
  | ok
  /-- The call reports failure; the first `kept` bytes were appended all the same. -/
  | fail (kept : ℕ)
  | throws
  deriving DecidableEq, Repr

/-- The environment: time zone, the outcome of the `n`-th call at the file boundary and the
`n`-th reading of the system clock in nanoseconds. -/
structure Host where
  cal : Calendar
  outcome : ℕ → IoOutcome
  clock : ℕ → ℤ

/-- No call at the file boundary fails. -/
def Host.NeverFails (host : Host) : Prop := ∀ n, host.outcome n = .ok

/-- A host in the time zone UTC on which no call fails.  Its calendar is that of January 2024, with
whole seconds cut off.  (The source divides `time_ns` by `1E9` in a `double`, which can round a time
some hundred nanoseconds before a full second up to that second.) -/
def Host.january : Host where
  cal := ⟨fun time_ns =>
    let secs := time_ns.toNat / 1000000000
    { tm_year := 124
      tm_mon := 0
      tm_mday := min ((secs - 1704067200) / 86400 + 1) 31
      tm_hour := secs % 86400 / 3600
      tm_min := secs % 3600 / 60
      tm_sec := secs % 60
      year_le := by norm_num
      mon_le := by norm_num
      mday_pos := by omega
      mday_le := by omega
      hour_le := by omega
      min_le := by omega
      sec_le := by omega }⟩
  outcome _ := .ok
  clock _ := 0

lemma Host.neverFails_january : Host.january.NeverFails := fun _ => rfl

/-! ## Worlds -/

/-- One effect on an inode. -/
inductive IoEvent where
  | append (inode : ℕ) (bytes : Bytes)
  | flush (inode : ℕ)
  deriving DecidableEq, Repr

/-- The inode an effect is on. -/
def IoEvent.inode : IoEvent → ℕ
  | append inode _ => inode
  | flush inode => inode

/-- The single bytes an effect appends, each with the inode it goes to. -/
def IoEvent.tape : IoEvent → List (ℕ × UInt8)
  | append inode bytes => Tape.tag inode bytes
  | flush _ => []

/-- A directory tree and the journal of its files.  Inodes are handed out in order, so neither
the tree nor the journal mentions one that was not handed out. -/
structure World where
  tree : Tree
  inodes : ℕ
  journal : List IoEvent
  /-- calls made at the file boundary -/
  calls : ℕ
  /-- readings taken of the system clock -/
  ticks : ℕ
  linked : ∀ p i, tree.lookup p = some (.file i) → i < inodes
  issued : ∀ e ∈ journal, e.inode < inodes

namespace World

/-- A world in which there is one empty directory. -/
def bare (root : Path) : World where
  tree := ⟨[(root, .dir)], by simp⟩
  inodes := 0
  journal := []
  calls := 0
  ticks := 0
  linked p i h := by
    rw [Tree.lookup_eq_some_iff] at h
    simp at h
  issued := by simp

/-- All appended bytes in the order they were appended. -/
def tape (w : World) : List (ℕ × UInt8) := w.journal.flatMap IoEvent.tape

/-- The content of a file. -/
def content (w : World) (inode : ℕ) : Bytes := Tape.project inode w.tape

/-- The content of a file when `p` bytes had been appended in all. -/
def contentAt (w : World) (p inode : ℕ) : Bytes := Tape.project inode (w.tape.take p)

lemma inode_lt_of_mem_tape {w : World} {e : ℕ × UInt8} (he : e ∈ w.tape) : e.1 < w.inodes := by
  obtain ⟨ev, hev, hmem⟩ := List.mem_flatMap.mp he
  have hlt := w.issued ev hev
  cases ev with
  | append i bs =>
      obtain ⟨b, -, rfl⟩ := List.mem_map.mp hmem
      exact hlt
  | flush i => simp [IoEvent.tape] at hmem

/-- A file that was not handed out yet is empty. -/
lemma content_of_le {w : World} {i : ℕ} (h : w.inodes ≤ i) : w.content i = [] :=
  Tape.project_eq_nil fun e he => by
    have := inode_lt_of_mem_tape he
    omega

/-- One more call at the file boundary was made. -/
def called (w : World) : World := { w with calls := w.calls + 1 }

/-- An effect takes place.  Handles only ever name inodes that were handed out. -/
def record (w : World) (e : IoEvent) : World :=
  if h : e.inode < w.inodes then
    { w with
      journal := w.journal ++ [e]
      issued := by
        intro e' he'
        rcases List.mem_append.mp he' with he' | he'
        · exact w.issued e' he'
        · rwa [List.mem_singleton.mp he'] }
  else w

/-- A new, empty file at a path that names nothing. -/
def create (w : World) (p : Path) : World :=
  { w with
    tree := w.tree.add p (.file w.inodes)
    inodes := w.inodes + 1
    linked := by
      intro q i hq
      cases hp : w.tree.lookup p with
      | some n =>
          rw [Tree.add_of_some _ hp] at hq
          exact Nat.lt_succ_of_lt (w.linked q i hq)
      | none =>
          rw [Tree.lookup_add _ hp] at hq
          split_ifs at hq with hqp
          · cases hq; exact Nat.lt_succ_self _
          · exact Nat.lt_succ_of_lt (w.linked q i hq)
    issued := fun e he => Nat.lt_succ_of_lt (w.issued e he) }

/-- Deletes a directory with everything below it. -/
def remove_all (w : World) (p : Path) : World :=
  { w with
    tree := w.tree.remove_all p
    linked := by
      intro q i hq
      rw [Tree.lookup_remove_all] at hq
      split_ifs at hq
      exact w.linked q i hq }

lemma lookup_mkdirsRev_file {t : Tree} {q : Path} {i : ℕ} : ∀ cs,
    (t.mkdirsRev cs).lookup q = some (.file i) → t.lookup q = some (.file i)
  | [] => id
  | c :: cs => by
      intro h
      rw [Tree.mkdirsRev] at h
      split_ifs at h with hd
      · exact h
      · cases hp : (t.mkdirsRev cs).lookup (c :: cs).reverse with
        | some n =>
            rw [Tree.add_of_some _ hp] at h
            exact lookup_mkdirsRev_file cs h
        | none =>
            rw [Tree.lookup_add _ hp] at h
            split_ifs at h
            · cases h
            · exact lookup_mkdirsRev_file cs h

/-- Creates a directory and its missing ancestors. -/
def mkdirs (w : World) (p : Path) : World :=
  { w with
    tree := w.tree.mkdirs p
    linked := fun q i hq => w.linked q i (lookup_mkdirsRev_file _ hq) }

/-- `std::chrono::system_clock::now()` -/
def now (host : Host) (w : World) : ℤ × World :=
  (host.clock w.ticks, { w with ticks := w.ticks + 1 })

/-! ### What each effect leaves alone -/

@[simp] lemma tree_called (w : World) : w.called.tree = w.tree := rfl
@[simp] lemma inodes_called (w : World) : w.called.inodes = w.inodes := rfl
@[simp] lemma tape_called (w : World) : w.called.tape = w.tape := rfl
@[simp] lemma content_called (w : World) : w.called.content = w.content := rfl
@[simp] lemma calls_called (w : World) : w.called.calls = w.calls + 1 := rfl
@[simp] lemma ticks_called (w : World) : w.called.ticks = w.ticks := rfl

@[simp] lemma tree_now (host : Host) (w : World) : (w.now host).2.tree = w.tree := rfl
@[simp] lemma inodes_now (host : Host) (w : World) : (w.now host).2.inodes = w.inodes := rfl
@[simp] lemma tape_now (host : Host) (w : World) : (w.now host).2.tape = w.tape := rfl
@[simp] lemma content_now (host : Host) (w : World) : (w.now host).2.content = w.content := rfl
@[simp] lemma calls_now (host : Host) (w : World) : (w.now host).2.calls = w.calls := rfl

@[simp] lemma tree_record (w : World) (e : IoEvent) : (w.record e).tree = w.tree := by
  unfold record; split <;> rfl
@[simp] lemma inodes_record (w : World) (e : IoEvent) : (w.record e).inodes = w.inodes := by
  unfold record; split <;> rfl
@[simp] lemma calls_record (w : World) (e : IoEvent) : (w.record e).calls = w.calls := by
  unfold record; split <;> rfl
@[simp] lemma ticks_record (w : World) (e : IoEvent) : (w.record e).ticks = w.ticks := by
  unfold record; split <;> rfl

lemma tape_record {w : World} {e : IoEvent} (h : e.inode < w.inodes) :
    (w.record e).tape = w.tape ++ e.tape := by
  simp [record, h, tape]

@[simp] lemma tape_record_flush (w : World) (i : ℕ) : (w.record (.flush i)).tape = w.tape := by
  unfold record
  split
  · simp [tape, IoEvent.tape]
  · rfl

@[simp] lemma content_record_flush (w : World) (i : ℕ) :
    (w.record (.flush i)).content = w.content := by
  funext j
  rw [content, content, tape_record_flush]

@[simp] lemma tape_create (w : World) (p : Path) : (w.create p).tape = w.tape := rfl
@[simp] lemma inodes_create (w : World) (p : Path) : (w.create p).inodes = w.inodes + 1 := rfl
@[simp] lemma content_create (w : World) (p : Path) : (w.create p).content = w.content := rfl
@[simp] lemma tree_create (w : World) (p : Path) :
    (w.create p).tree = w.tree.add p (.file w.inodes) := rfl
@[simp] lemma calls_create (w : World) (p : Path) : (w.create p).calls = w.calls := rfl

@[simp] lemma tape_mkdirs (w : World) (p : Path) : (w.mkdirs p).tape = w.tape := rfl
@[simp] lemma inodes_mkdirs (w : World) (p : Path) : (w.mkdirs p).inodes = w.inodes := rfl
@[simp] lemma content_mkdirs (w : World) (p : Path) : (w.mkdirs p).content = w.content := rfl
@[simp] lemma tree_mkdirs (w : World) (p : Path) : (w.mkdirs p).tree = w.tree.mkdirs p := rfl

@[simp] lemma tape_remove_all (w : World) (p : Path) : (w.remove_all p).tape = w.tape := rfl
@[simp] lemma inodes_remove_all (w : World) (p : Path) : (w.remove_all p).inodes = w.inodes := rfl
@[simp] lemma content_remove_all (w : World) (p : Path) :
    (w.remove_all p).content = w.content := rfl
@[simp] lemma tree_remove_all (w : World) (p : Path) :
    (w.remove_all p).tree = w.tree.remove_all p := rfl

/-! ### Growth -/

/-- Names stay where they are and files only get longer. -/
structure Grows (w w' : World) : Prop where
  lookup : ∀ p n, w.tree.lookup p = some n → w'.tree.lookup p = some n
  tape : w.tape <+: w'.tape
  inodes : w.inodes ≤ w'.inodes

lemma Grows.refl (w : World) : w.Grows w := ⟨fun _ _ h => h, List.prefix_rfl, le_rfl⟩

lemma Grows.trans {a b c : World} (h₁ : a.Grows b) (h₂ : b.Grows c) : a.Grows c :=
  ⟨fun p n h => h₂.lookup p n (h₁.lookup p n h), h₁.tape.trans h₂.tape,
    h₁.inodes.trans h₂.inodes⟩

lemma Grows.content {w w' : World} (h : w.Grows w') (i : ℕ) : w.content i <+: w'.content i :=
  Tape.project_mono i h.tape

lemma grows_called (w : World) : w.Grows w.called := ⟨fun _ _ h => h, List.prefix_rfl, le_rfl⟩

lemma grows_now (host : Host) (w : World) : w.Grows (w.now host).2 :=
  ⟨fun _ _ h => h, List.prefix_rfl, le_rfl⟩

lemma grows_record (w : World) (e : IoEvent) : w.Grows (w.record e) := by
  refine ⟨by simp, ?_, by simp⟩
  by_cases h : e.inode < w.inodes
  · rw [tape_record h]
    exact List.prefix_append _ _
  · simp [record, h]

lemma grows_create (w : World) (p : Path) : w.Grows (w.create p) :=
  ⟨fun _ _ h => Tree.lookup_add_of_some _ h, List.prefix_rfl, Nat.le_succ _⟩

lemma grows_mkdirs (w : World) (p : Path) : w.Grows (w.mkdirs p) :=
  ⟨fun _ _ h => Tree.lookup_mkdirsRev_of_some h _, List.prefix_rfl, le_rfl⟩

/-! ### Effects one after the other -/

/-- What the program does to the world between two deletions.  Directories are made where `D`
allows it. -/
inductive Reaches (D : Path → Prop) : World → World → Prop where
  | refl (w : World) : Reaches D w w
  | called (w : World) : Reaches D w w.called
  | now (host : Host) (w : World) : Reaches D w (w.now host).2
  | record (w : World) (e : IoEvent) : Reaches D w (w.record e)
  | create (w : World) (p : Path) : Reaches D w (w.create p)
  | mkdirs (w : World) {p : Path} (h : D p) : Reaches D w (w.mkdirs p)
  | trans {a b c : World} (h₁ : Reaches D a b) (h₂ : Reaches D b c) : Reaches D a c

lemma Reaches.grows {D : Path → Prop} {w w' : World} (h : w.Reaches D w') : w.Grows w' := by
  induction h with
  | refl w => exact Grows.refl w
  | called w => exact w.grows_called
  | now host w => exact grows_now host w
  | record w e => exact w.grows_record e
  | create w p => exact w.grows_create p
  | mkdirs w _ => exact w.grows_mkdirs _
  | trans _ _ ih₁ ih₂ => exact ih₁.trans ih₂

/-- Every new directory is one that may be made, or above one. -/
lemma Reaches.dirs {D : Path → Prop} {w w' : World} (h : w.Reaches D w') {q : Path}
    (hq : w'.tree.lookup q = some .dir) : w.tree.lookup q = some .dir ∨
      ∃ p, D p ∧ q <+: p := by
  induction h with
  | refl w => exact Or.inl hq
  | called w => exact Or.inl hq
  | now host w => exact Or.inl hq
  | record w e => exact Or.inl (by rwa [tree_record] at hq)
  | create w p =>
      left
      rw [tree_create] at hq
      cases hp : w.tree.lookup p with
      | some n => rwa [Tree.add_of_some _ hp] at hq
      | none =>
          rw [Tree.lookup_add _ hp] at hq
          split_ifs at hq
          · cases hq
          · exact hq
  | mkdirs w hD => exact (Tree.dir_of_mkdirs hq).imp_right fun hp => ⟨_, hD, hp⟩
  | trans _ _ ih₁ ih₂ => exact (ih₂ hq).elim ih₁ Or.inr

/-! ### Appending -/

/-- The bytes `t` were appended and nothing else happened to the files. -/
structure Extends (w w' : World) (t : List (ℕ × UInt8)) : Prop where
  tree : w'.tree = w.tree
  inodes : w'.inodes = w.inodes
  tape : w'.tape = w.tape ++ t

lemma Extends.trans {a b c : World} {s t : List (ℕ × UInt8)} (h₁ : a.Extends b s)
    (h₂ : b.Extends c t) : a.Extends c (s ++ t) :=
  ⟨h₂.tree.trans h₁.tree, h₂.inodes.trans h₁.inodes, by
    rw [h₂.tape, h₁.tape, List.append_assoc]⟩

lemma Extends.of_eq {w w' : World} (ht : w'.tree = w.tree) (hi : w'.inodes = w.inodes)
    (hp : w'.tape = w.tape) : w.Extends w' [] := ⟨ht, hi, by simp [hp]⟩

lemma Extends.content {w w' : World} {t : List (ℕ × UInt8)} (h : w.Extends w' t) (i : ℕ) :
    w'.content i = w.content i ++ Tape.project i t := by
  rw [World.content, h.tape, Tape.project_append, World.content]

lemma extends_record {w : World} {i : ℕ} (h : i < w.inodes) (bytes : Bytes) :
    w.Extends (w.record (.append i bytes)) (Tape.tag i bytes) :=
  ⟨by simp, by simp, tape_record (e := .append i bytes) h⟩

/-! ### Adding files -/

/-- Only files from inode `n` on were added and written to; whatever was there stays. -/
structure Adds (n : ℕ) (w w' : World) : Prop where
  tape : ∃ t, w'.tape = w.tape ++ t ∧ ∀ e ∈ t, n ≤ e.1
  inodes : w.inodes ≤ w'.inodes
  lookup : ∀ p m, w.tree.lookup p = some m → w'.tree.lookup p = some m
  files : ∀ p i, i < n → w'.tree.lookup p = some (.file i) → w.tree.lookup p = some (.file i)

lemma Adds.of_extends {n : ℕ} {w w' : World} {t : List (ℕ × UInt8)} (h : w.Extends w' t)
    (ht : ∀ e ∈ t, n ≤ e.1) : w.Adds n w' :=
  ⟨⟨t, h.tape, ht⟩, h.inodes.ge, fun _ _ hp => by rw [h.tree]; exact hp,
    fun _ _ _ hp => by rw [← h.tree]; exact hp⟩

lemma Adds.trans {n : ℕ} {a b c : World} (h₁ : a.Adds n b) (h₂ : b.Adds n c) :
    a.Adds n c := by
  obtain ⟨s, hs, hsn⟩ := h₁.tape
  obtain ⟨t, ht, htn⟩ := h₂.tape
  refine ⟨⟨s ++ t, by rw [ht, hs, List.append_assoc], ?_⟩, h₁.inodes.trans h₂.inodes,
    fun p m hp => h₂.lookup p m (h₁.lookup p m hp),
    fun p i hi hp => h₁.files p i hi (h₂.files p i hi hp)⟩
  intro e he
  rcases List.mem_append.mp he with he | he
  · exact hsn e he
  · exact htn e he

lemma adds_create {n : ℕ} {w : World} (hn : n ≤ w.inodes) (p : Path) :
    w.Adds n (w.create p) where
  tape := ⟨[], by simp, by simp⟩
  inodes := Nat.le_succ _
  lookup _ _ hq := Tree.lookup_add_of_some _ hq
  files q i hi hq := by
    rw [tree_create] at hq
    cases hp : w.tree.lookup p with
    | some m => rwa [Tree.add_of_some _ hp] at hq
    | none =>
        rw [Tree.lookup_add _ hp] at hq
        split_ifs at hq
        · have := Node.file.inj (Option.some.inj hq)
          omega
        · exact hq

end World

/-! ## The file boundary -/

/-- A file handle.  A handle that failed to open, or was closed, accepts nothing. -/
structure FileIo where
  inode : ℕ
  is_open : Bool
  deriving DecidableEq, Repr

namespace FileIo

variable (host : Host)

/-- A handle that never got hold of a file. -/
def unopened : FileIo := ⟨0, false⟩

/-- `close()`: the handle is of no use afterwards. -/
def close (f : FileIo) : FileIo := { f with is_open := false }

/-- `FileIO::open` in append mode on `dir + "/" + rel`. -/
def open_ (dir : Path) (rel : Bytes) (w : World) : FileIo × World :=
  match host.outcome w.calls, w.tree.resolve dir rel with
  | .ok, .ok p =>
      match w.tree.lookup p with
      | some (.file i) => (⟨i, true⟩, w.called)
      | some .dir => (unopened, w.called)
      | none => (⟨w.inodes, true⟩, (w.create p).called)
  | _, _ => (unopened, w.called)

/-- `FileIO::write` -/
def write (f : FileIo) (bytes : Bytes) (w : World) : Bool × World :=
  match host.outcome w.calls with
  | .ok => (true, (w.record (.append f.inode bytes)).called)
  | .fail kept => (false, (w.record (.append f.inode (bytes.take kept))).called)
  | .throws => (false, w.called)

/-- `FileIO::flush` -/
def flush (f : FileIo) (w : World) : Bool × World :=
  match host.outcome w.calls with
  | .ok => (true, (w.record (.flush f.inode)).called)
  | _ => (false, w.called)

variable {host}

lemma write_iff {f : FileIo} {bytes : Bytes} {w : World} :
    (f.write host bytes w).1 = true ↔ host.outcome w.calls = .ok := by
  unfold write
  cases host.outcome w.calls <;> simp

lemma flush_iff {f : FileIo} {w : World} :
    (f.flush host w).1 = true ↔ host.outcome w.calls = .ok := by
  unfold flush
  cases host.outcome w.calls <;> simp

@[simp] lemma calls_write (f : FileIo) (bytes : Bytes) (w : World) :
    (f.write host bytes w).2.calls = w.calls + 1 := by
  unfold write
  cases host.outcome w.calls <;> simp

@[simp] lemma calls_flush (f : FileIo) (w : World) :
    (f.flush host w).2.calls = w.calls + 1 := by
  unfold flush
  cases host.outcome w.calls <;> simp

/-- A write that succeeds appends all its bytes. -/
lemma write_extends {f : FileIo} {bytes : Bytes} {w : World} (hf : f.inode < w.inodes)
    (h : host.outcome w.calls = .ok) :
    w.Extends (f.write host bytes w).2 (Tape.tag f.inode bytes) := by
  have he := World.extends_record hf bytes
  simp only [write, h]
  exact ⟨he.tree, he.inodes, he.tape⟩

/-- A write that fails before its first byte changes no file. -/
lemma write_keeps_nothing {f : FileIo} {bytes : Bytes} {w : World}
    (h : host.outcome w.calls = .fail 0 ∨ host.outcome w.calls = .throws) :
    w.Extends (f.write host bytes w).2 [] := by
  rcases h with h | h
  · simp only [write, h, List.take_zero]
    by_cases hf : f.inode < w.inodes
    · have he := World.extends_record hf []
      exact ⟨he.tree, he.inodes, he.tape⟩
    · exact World.Extends.of_eq (by simp) (by simp) (by simp [World.record, IoEvent.inode, hf])
  · simp only [write, h]
    exact World.Extends.of_eq rfl rfl rfl

/-- A flush changes no file. -/
lemma flush_extends (f : FileIo) (w : World) : w.Extends (f.flush host w).2 [] := by
  unfold flush
  split
  · exact World.Extends.of_eq (by simp) (by simp) (by simp)
  · exact World.Extends.of_eq rfl rfl rfl

lemma reaches_open {D : Path → Prop} (dir : Path) (rel : Bytes) (w : World) :
    w.Reaches D (open_ host dir rel w).2 := by
  unfold open_
  split
  · split
    · exact .called w
    · exact .called w
    · exact (World.Reaches.create w _).trans (.called _)
  · exact .called w

lemma adds_open {n : ℕ} {w : World} (hn : n ≤ w.inodes) (dir : Path) (rel : Bytes) :
    w.Adds n (open_ host dir rel w).2 := by
  have hcalled : ∀ w : World, w.Adds n w.called := fun w =>
    World.Adds.of_extends (World.Extends.of_eq rfl rfl rfl) (by simp)
  unfold open_
  split
  · split
    · exact hcalled w
    · exact hcalled w
    · exact (World.adds_create hn _).trans (hcalled _)
  · exact hcalled w

lemma adds_write {n : ℕ} {f : FileIo} (hn : n ≤ f.inode) (bytes : Bytes) (w : World) :
    w.Adds n (f.write host bytes w).2 := by
  have hrecord : ∀ bs : Bytes, w.Adds n (w.record (.append f.inode bs)).called := by
    intro bs
    by_cases hf : f.inode < w.inodes
    · have he := World.extends_record hf bs
      refine World.Adds.of_extends ⟨he.tree, he.inodes, he.tape⟩ fun e he => ?_
      obtain ⟨b, -, rfl⟩ := List.mem_map.mp he
      exact hn
    · exact World.Adds.of_extends (t := [])
        (World.Extends.of_eq (by simp) (by simp) (by simp [World.record, IoEvent.inode, hf]))
        (by simp)
  unfold write
  split
  · exact hrecord bytes
  · exact hrecord _
  · exact World.Adds.of_extends (World.Extends.of_eq rfl rfl rfl) (by simp)

lemma adds_flush (n : ℕ) (f : FileIo) (w : World) : w.Adds n (f.flush host w).2 :=
  World.Adds.of_extends (flush_extends f w) (by simp)

lemma reaches_write {D : Path → Prop} (f : FileIo) (bytes : Bytes) (w : World) :
    w.Reaches D (f.write host bytes w).2 := by
  unfold write
  split
  · exact (World.Reaches.record w _).trans (.called _)
  · exact (World.Reaches.record w _).trans (.called _)
  · exact .called w

lemma reaches_flush {D : Path → Prop} (f : FileIo) (w : World) :
    w.Reaches D (f.flush host w).2 := by
  unfold flush
  split
  · exact (World.Reaches.record w _).trans (.called _)
  · exact .called w

end FileIo

end Tracebox
