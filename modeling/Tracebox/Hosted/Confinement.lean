import Tracebox.Host.Disk
import Tracebox.Hosted.Keeping
import Tracebox.Lib.Machine

/-!
# Where the writer writes

A channel name comes from the network and becomes part of a path.  What keeps the path where it
belongs is the time of day in front of it: the first component of every file name begins with a
digit, so it is neither `.` nor `..`, and a walk that goes on behind it needs something of that name
in the day directory to go on through.  A directory would do, and so would a link; the writer makes
neither.

* `Disk.Flat`, `resolveIn_flat` — **a name that begins with a digit lies directly in a directory
  that holds no directories and no links**, or leads nowhere.
* `Disk.Confined` — what an operation does that keeps to one directory.
* `writer_confined` — **every file the backend creates or appends to is a direct child of the day
  directory of the request**, whatever the channel names were.
-/

namespace Tracebox

open Bytes

namespace DiskTree

variable {t t' : DiskTree}

/-- What stands in a tree with more entries. -/
lemma look_subset (h : ∀ p n, t.lookup p = some n → t'.lookup p = some n) :
    Paths.Subset t.look t'.look := by
  intro p kind hp
  rw [look, node] at hp ⊢
  split_ifs at hp ⊢
  · exact hp
  · cases hl : t.lookup p with
    | none => simp [hl] at hp
    | some n =>
        rw [hl] at hp
        rw [h p n hl]
        exact hp

/-- A path that leads somewhere leads there when entries are added. -/
lemma resolve_of_subset (h : ∀ p n, t.lookup p = some n → t'.lookup p = some n) {dir q : Path}
    (hq : t.resolve dir = .there q) : t'.resolve dir = .there q := by
  rw [resolve] at hq ⊢
  split_ifs at hq ⊢
  exact Paths.walk_subset (look_subset h) _ hq (Or.inr ⟨q, rfl⟩)

lemma node_of_subset (h : ∀ p n, t.lookup p = some n → t'.lookup p = some n) {p : Path}
    {n : DiskNode} (hp : t.node p = some n) : t'.node p = some n := by
  rw [node] at hp ⊢
  split_ifs at hp ⊢
  · exact hp
  · exact h p n hp

/-- What is put at a free place is all that is new. -/
lemma lookup_put_cases {p q : Path} {n m : DiskNode} (h : (t.put p n).lookup q = some m) :
    t.lookup q = some m ∨ (q = p ∧ m = n) := by
  by_cases hp : ∀ c ∈ p, reading c = .down
  · rw [lookup_put hp] at h
    split_ifs at h with hq
    · exact Or.inr ⟨hq, (Option.some.inj h).symm⟩
    · exact Or.inl h
  · rw [put, dif_neg hp] at h
    exact Or.inl h

lemma lookup_put_of_some {p q : Path} {n m : DiskNode} (hfree : t.lookup p = none)
    (h : t.lookup q = some m) : (t.put p n).lookup q = some m := by
  by_cases hp : ∀ c ∈ p, reading c = .down
  · rw [lookup_put hp, if_neg, h]
    rintro rfl
    rw [hfree] at h
    cases h
  · rw [put, dif_neg hp]
    exact h

/-- A component that begins with a digit names an entry, unless it is too long. -/
lemma reading_digit {b : UInt8} (hb : isDigit b = true) (c : Bytes) :
    reading (b :: c) = .tooLong ∨ reading (b :: c) = .down := by
  have h46 : b ≠ 46 := by rintro rfl; simp [isDigit] at hb
  rw [reading_of_name ⟨by simp, by simp [h46], by simp [h46]⟩]
  split_ifs
  · exact Or.inl rfl
  · exact Or.inr rfl

/-- The directory of a day is made in its root, or was there. -/
lemma makeDirsRev_concat {root top : Path} {c : Bytes} (htop : t.resolve root = .there top)
    (hdir : t.node top = some .dir) (h : t.makeDirsRev (root ++ [c]).reverse = some t') :
    t' = t ∨ (t.lookup (top ++ [c]) = none ∧ t' = t.put (top ++ [c]) .dir) := by
  have hroot : t.makeDirsRev root.reverse = some t := by
    cases hr : root.reverse with
    | nil => rfl
    | cons d ds =>
        have hres : t.resolve (d :: ds).reverse = .there top := by
          rw [← hr, List.reverse_reverse, htop]
        rw [makeDirsRev, hres]
        exact if_pos hdir
  rw [List.reverse_append, List.reverse_singleton, List.singleton_append, makeDirsRev] at h
  split at h
  · cases h
  · split_ifs at h
    exact Or.inl (Option.some.inj h).symm
  · rw [hroot, Option.bind_some, List.reverse_reverse, htop] at h
    simp only at h
    split_ifs at h with hboth
    exact Or.inr ⟨by rw [← node_concat]; exact hboth.2, (Option.some.inj h).symm⟩

end DiskTree

namespace Disk

/-! ## Names that begin with a digit -/

/-- A root leads to a directory `top`, in which `c` is no link and holds no directories and no
links. -/
structure Flat (root top : Path) (c : Bytes) (d : Disk) : Prop where
  leads : d.tree.resolve root = .there top
  directory : d.tree.node top = some .dir
  real : ∀ target, d.tree.lookup (top ++ [c]) ≠ some (.link target)
  flat : ∀ name n, d.tree.lookup (top ++ [c, name]) = some n →
    (∃ i, n = .file i) ∨ n = .special

variable {root top : Path} {c : Bytes} {d d' : Disk}

/-- **A name that begins with a digit lies directly in a flat directory**, or leads nowhere. -/
lemma resolveIn_flat (h : Flat root top c d) {day : ℕ} (hc : c = toDec day) {b : UInt8}
    (rest : Bytes) (hb : isDigit b = true) :
    (∃ name, (∀ e ∈ top ++ [c, name], reading e = .down) ∧
      ((∃ n, d.tree.lookup (top ++ [c, name]) = some n ∧
          d.tree.resolveIn (root ++ [c]) (b :: rest) = .there (top ++ [c, name])) ∨
        (d.tree.lookup (top ++ [c, name]) = none ∧
          d.tree.resolveIn (root ++ [c]) (b :: rest) = .free (top ++ [c, name])))) ∨
      d.tree.resolveIn (root ++ [c]) (b :: rest) = .notFound ∨
      d.tree.resolveIn (root ++ [c]) (b :: rest) = .failed := by
  obtain ⟨b', c', rfl, hb'⟩ : ∃ b' c', c = b' :: c' ∧ isDigit b' = true := by
    obtain ⟨b', c', hcons⟩ := List.exists_cons_of_ne_nil (toDec_ne_nil day)
    exact ⟨b', c', hc.trans hcons, isDigit_of_mem_toDec (n := day) (by simp [hcons])⟩
  obtain ⟨e, es, hcomps⟩ := Tree.components_digit hb rest
  obtain ⟨left, hleft⟩ := DiskTree.walk_below (DiskTree.walk_of_resolve h.leads) h.directory
  obtain ⟨follow, hfollow⟩ := Paths.walk_eq_walkWith reading d.tree.look left
  have htopDown : ∀ a ∈ top, reading a = .down := by
    have hnode := h.directory
    rw [DiskTree.node] at hnode
    split_ifs at hnode with hnil
    · simp [hnil]
    · exact d.tree.named _ _ hnode
  rw [DiskTree.resolveIn]
  split_ifs
  · exact Or.inr (Or.inr rfl)
  rw [hcomps, List.append_assoc, List.singleton_append, hleft, hfollow, Paths.walkWith]
  rcases DiskTree.reading_digit hb' c' with hlong | hread
  · exact Or.inr (Or.inr (by rw [hlong]))
  rw [hread]
  cases hday : d.tree.lookup (top ++ [b' :: c']) with
  | none => exact Or.inr (Or.inl (by simp [DiskTree.look, DiskTree.node_concat, hday]))
  | some n =>
      have hstop : DiskTree.kind n = .leaf ∨ n = .dir := by
        cases n with
        | dir => exact Or.inr rfl
        | file i => exact Or.inl rfl
        | special => exact Or.inl rfl
        | link target => exact absurd hday (h.real target)
      rcases hstop with hleaf | rfl
      · exact Or.inr (Or.inl (by simp [DiskTree.look, DiskTree.node_concat, hday, hleaf]))
      · simp only [DiskTree.look, DiskTree.node_concat, hday, Option.map_some, DiskTree.kind]
        -- one component further on
        rw [Paths.walkWith]
        rcases DiskTree.reading_digit hb e with hlong | hread'
        · exact Or.inr (Or.inr (by rw [hlong]))
        rw [hread']
        have hdown : ∀ a ∈ top ++ [b' :: c', b :: e], reading a = .down := by
          intro a ha
          simp only [List.mem_append, List.mem_cons, List.not_mem_nil, or_false] at ha
          rcases ha with ha | rfl | rfl
          · exact htopDown a ha
          · exact hread
          · exact hread'
        have hcat : top ++ [b' :: c'] ++ [b :: e] = top ++ [b' :: c', b :: e] := by simp
        have hnode := DiskTree.node_concat (t := d.tree) (top ++ [b' :: c']) (b :: e)
        rw [hcat] at hnode ⊢
        cases hname : d.tree.lookup (top ++ [b' :: c', b :: e]) with
        | none =>
            simp only [DiskTree.look, hnode, hname, Option.map_none]
            split_ifs
            · exact Or.inl ⟨b :: e, hdown, Or.inr ⟨hname, rfl⟩⟩
            · exact Or.inr (Or.inl rfl)
        | some n =>
            have hleaf : DiskTree.kind n = .leaf := by
              rcases h.flat _ _ hname with ⟨i, rfl⟩ | rfl
              · rfl
              · rfl
            simp only [DiskTree.look, hnode, hname, Option.map_some, hleaf]
            split_ifs
            · exact Or.inl ⟨b :: e, hdown, Or.inl ⟨n, hname, rfl⟩⟩
            · exact Or.inr (Or.inl rfl)

/-! ## Keeping to one directory -/

/-- A name in the directory leads to the file. -/
def Linked (place : Path) (d : Disk) (inode : ℕ) : Prop :=
  ∃ name, d.tree.lookup (place ++ [name]) = some (.file inode)

/-- What an operation does that keeps to a directory: what is there stays, what is new is the
directory or a file that lies directly in it, and bytes are appended to files in it only. -/
structure Confined (place : Path) (d d' : Disk) : Prop where
  lookup : ∀ p n, d.tree.lookup p = some n → d'.tree.lookup p = some n
  new : ∀ p n, d'.tree.lookup p = some n → d.tree.lookup p = some n ∨
    (p = place ∧ n = .dir) ∨
    ∃ name i, p = place ++ [name] ∧ n = .file i
  tape : ∃ t, d'.tape = d.tape ++ t ∧ ∀ e ∈ t, Linked place d' e.1

namespace Confined

variable {place : Path} {d₁ : Disk}

lemma linked (h : Confined place d d') {i : ℕ} (hi : Linked place d i) : Linked place d' i := by
  obtain ⟨name, hname⟩ := hi
  exact ⟨name, h.lookup _ _ hname⟩

lemma trans (h₁ : Confined place d d₁) (h₂ : Confined place d₁ d') :
    Confined place d d' where
  lookup p n hp := h₂.lookup p n (h₁.lookup p n hp)
  new p n hp := (h₂.new p n hp).elim (h₁.new p n) Or.inr
  tape := by
    obtain ⟨t, ht, htl⟩ := h₁.tape
    obtain ⟨u, hu, hul⟩ := h₂.tape
    refine ⟨t ++ u, by rw [hu, ht, List.append_assoc], fun e he => ?_⟩
    rcases List.mem_append.mp he with he | he
    · exact h₂.linked (htl e he)
    · exact hul e he

/-- Bytes appended to files in the directory. -/
lemma of_append {t : List (ℕ × UInt8)} (htree : d'.tree = d.tree) (htape : d'.tape = d.tape ++ t)
    (ht : ∀ e ∈ t, Linked place d e.1) : Confined place d d' where
  lookup p n hp := by rwa [htree]
  new p n hp := Or.inl (by rwa [← htree])
  tape := ⟨t, htape, fun e he => by
    rw [Linked, htree]
    exact ht e he⟩

lemma of_eq (htree : d'.tree = d.tree) (htape : d'.tape = d.tape) : Confined place d d' :=
  of_append (t := []) htree (by rw [htape, List.append_nil]) (by simp)

/-- A new entry: the directory itself, or a file in it. -/
lemma put {p : Path} {n : DiskNode} (hfree : d.tree.lookup p = none)
    (htree : d'.tree = d.tree.put p n) (htape : d'.tape = d.tape)
    (hnew : (p = place ∧ n = .dir) ∨ ∃ name i, p = place ++ [name] ∧ n = .file i) :
    Confined place d d' where
  lookup q m hq := by
    rw [htree]
    exact DiskTree.lookup_put_of_some hfree hq
  new q m hq := by
    rw [htree] at hq
    rcases DiskTree.lookup_put_cases hq with hold | ⟨rfl, rfl⟩
    · exact Or.inl hold
    · exact Or.inr hnew
  tape := ⟨[], by rw [htape, List.append_nil], by simp⟩

/-- A directory stays flat when another one, or itself, is written to. -/
lemma flat {c' : Bytes} (h : Confined (top ++ [c']) d d') (hd : Flat root top c d) :
    Flat root top c d' where
  leads := DiskTree.resolve_of_subset h.lookup hd.leads
  directory := DiskTree.node_of_subset h.lookup hd.directory
  real target htarget := by
    rcases h.new _ _ htarget with hold | ⟨-, hdir⟩ | ⟨name, i, hp, -⟩
    · exact hd.real target hold
    · cases hdir
    · simpa using congrArg List.length hp
  flat name n hn := by
    rcases h.new _ _ hn with hold | ⟨hp, -⟩ | ⟨name', i, -, rfl⟩
    · exact hd.flat name n hold
    · simpa using congrArg List.length hp
    · exact Or.inl ⟨i, rfl⟩

end Confined

variable (host : DiskHost)

lemma confined_create_directories (h : Flat root top c d) :
    Confined (top ++ [c]) d (create_directories host (root ++ [c]) d).2 := by
  unfold create_directories
  split
  · split
    · rename_i t ht
      rcases DiskTree.makeDirsRev_concat h.leads h.directory ht with rfl | ⟨hfree, rfl⟩
      · exact .of_eq rfl rfl
      · exact .put hfree rfl rfl (Or.inl ⟨rfl, rfl⟩)
    · exact .of_eq rfl rfl
  · exact .of_eq rfl rfl
  · exact .of_eq rfl rfl

/-- Opening a name that begins with a digit. -/
lemma confined_open (h : Flat root top c d) {day : ℕ} (hc : c = toDec day) {b : UInt8}
    (rest : Bytes) (hb : isDigit b = true) :
    Confined (top ++ [c]) d (open_ host (root ++ [c]) (b :: rest) d).2 ∧
      ((open_ host (root ++ [c]) (b :: rest) d).1.is_open = true →
        Linked (top ++ [c]) (open_ host (root ++ [c]) (b :: rest) d).2
          (open_ host (root ++ [c]) (b :: rest) d).1.inode) := by
  have hnothing : Confined (top ++ [c]) d d.called := .of_eq rfl rfl
  unfold open_
  rcases resolveIn_flat h hc rest hb with
    ⟨name, hdown, ⟨n, hn, hres⟩ | ⟨hfree, hres⟩⟩ | hres | hres
  · have hcat : top ++ [c, name] = top ++ [c] ++ [name] := by simp
    rw [hres]
    split
    · rename_i p _ hp
      cases hp
      rw [hcat, DiskTree.node_concat, ← hcat]
      split
      · rename_i i hi
        exact ⟨hnothing, fun _ => ⟨name, by rw [← hcat]; exact hi⟩⟩
      · exact ⟨hnothing, nofun⟩
    · rename_i hp
      cases hp
    · exact ⟨hnothing, nofun⟩
  · have hcat : top ++ [c, name] = top ++ [c] ++ [name] := by simp
    rw [hres]
    split
    · rename_i hp
      cases hp
    · rename_i p _ hp
      cases hp
      refine ⟨.put hfree rfl rfl (Or.inr ⟨name, d.inodes, hcat, rfl⟩), fun _ =>
        ⟨name, ?_⟩⟩
      rw [← hcat]
      exact (DiskTree.lookup_put hdown _ _).trans (if_pos rfl)
    · exact ⟨hnothing, nofun⟩
  · rw [hres]
    split
    · rename_i hp
      cases hp
    · rename_i hp
      cases hp
    · exact ⟨hnothing, nofun⟩
  · rw [hres]
    split
    · rename_i hp
      cases hp
    · rename_i hp
      cases hp
    · exact ⟨hnothing, nofun⟩

lemma confined_write {place : Path} {f : FileIo} (bytes : Bytes)
    (hf : f.is_open = true → Linked place d f.inode) :
    Confined place d (write host f bytes d).2 := by
  have happend : f.is_open = true → ∀ bs : Bytes,
      Confined place d (d.append f.inode bs).called := by
    intro hopen bs
    refine .of_append rfl rfl fun e he => ?_
    obtain ⟨byte, -, rfl⟩ := List.mem_map.mp he
    exact hf hopen
  unfold write
  split_ifs with hopen
  · split
    · exact happend hopen bytes
    · exact happend hopen _
    · exact .of_eq rfl rfl
  · exact .of_eq rfl rfl

/-- **The calls of a day's folder keep to the day's directory.** -/
lemma keeps (root top : Path) (day : ℕ) :
    System.Keeps (system host) (root ++ [toDec day]) (Flat root top (toDec day))
      (Linked (top ++ [toDec day])) (Confined (top ++ [toDec day])) where
  refl _ := .of_eq rfl rfl
  trans := .trans
  stays h hd := h.flat hd
  mono h hi := h.linked hi
  create hd := confined_create_directories host hd
  open_ rest hd hb := confined_open host hd rfl rest hb
  write bytes hf := confined_write host bytes hf
  flush _ _ := .of_eq rfl rfl
  inject _ := .of_eq rfl rfl
  now _ := .of_eq rfl rfl

/-! ## Whole runs -/

/-- **Every file the backend creates or appends to is a direct child of the day directory of the
request**, after any sequence of requests with any channel names, on any root whose day directories
are no links and held no directories and no links at the start. -/
theorem writer_confined (host : DiskHost) {root top : Path} {d₀ d d' : Disk}
    (hflat : ∀ time_ns, Flat root top (toDec (host.cal.Time2YYYYMMDD time_ns)) d₀)
    {requests : List LogRequest} {b b' : FilesystemStorageBackend}
    (hrun : Machine.run (System.Backend.writeStep (system host))
      (FilesystemStorageBackend.make root, d₀) requests = some (b, d))
    {request : LogRequest} {out : Outcome}
    (h : System.Backend.write (system host) b request d = (out, b', d')) :
    let dir := top ++ [toDec (host.cal.Time2YYYYMMDD request.time_ns)]
    (∀ p n, d'.tree.lookup p = some n → d.tree.lookup p = some n ∨ (p = dir ∧ n = .dir) ∨
      ∃ name i, p = dir ++ [name] ∧ n = .file i) ∧
    ∃ appended, d'.tape = d.tape ++ appended ∧ ∀ e ∈ appended, ∃ name,
      d'.tree.lookup (dir ++ [name]) = some (.file e.1) := by
  let Inv : FilesystemStorageBackend × Disk → Prop := fun x =>
    System.Backend.Inside root (fun day => Linked (top ++ [toDec day])) x.2 x.1 ∧
      ∀ time_ns, Flat root top (toDec (host.cal.Time2YYYYMMDD time_ns)) x.2
  have hstart : Inv (FilesystemStorageBackend.make root, d₀) :=
    ⟨⟨rfl, fun h => absurd rfl h⟩, hflat⟩
  have hwrite : ∀ (x : FilesystemStorageBackend × Disk) request, Inv x →
      Confined (top ++ [toDec (host.cal.Time2YYYYMMDD request.time_ns)]) x.2
          (System.Backend.write (system host) x.1 request x.2).2.2 ∧
        Inv (System.Backend.write (system host) x.1 request x.2).2 := by
    intro x request hx
    obtain ⟨hconfined, hin⟩ := System.Backend.write_kept (keeps host root top) hx.1
      (hx.2 request.time_ns)
    exact ⟨hconfined, hin, fun time_ns => hconfined.flat (hx.2 time_ns)⟩
  have hinv : Inv (b, d) := by
    refine Machine.run_invariant_of_step (fun x request x' hx hx' => ?_) hstart hrun
    cases hx'
    exact (hwrite x request hx).2
  have hconfined := (hwrite (b, d) request hinv).1
  rw [h] at hconfined
  exact ⟨hconfined.new, hconfined.tape⟩

/-- A channel name with `..` in it. -/
def climbing : LogRequest := ⟨ascii "a/../../../etc", 0, ascii "x", 1704067200000000000⟩

/-- A channel name that the system reads up to a NUL. -/
def cutOff : LogRequest := ⟨ascii "a" ++ 0 :: ascii "b", 0, ascii "x", 1704067200000000000⟩

/-- What is there after a request with a climbing name. -/
def climbed : FilesystemStorageBackend × Disk :=
  (System.Backend.write (system .january) (FilesystemStorageBackend.make [ascii "r"]) climbing
    (bare [ascii "r"])).2

/-- A climbing name, then one that is cut off: a file is created and written to, and it lies in the
day directory. -/
theorem writer_confined_hostile :
    let dir : Path := [ascii "r", ascii "20240101"]
    Machine.run (System.Backend.writeStep (system .january))
        (FilesystemStorageBackend.make [ascii "r"], bare [ascii "r"]) [climbing] = some climbed ∧
      ∃ out b' d', System.Backend.write (system .january) climbed.1 cutOff climbed.2 =
          (out, b', d') ∧
        climbed.2.tree.lookup (dir ++ [ascii "000000_a"]) = none ∧
        d'.tree.lookup (dir ++ [ascii "000000_a"]) = some (.file 0) ∧
        d'.tape.length = climbed.2.tape.length + 123 ∧
        (∀ p n, d'.tree.lookup p = some n → climbed.2.tree.lookup p = some n ∨
          (p = dir ∧ n = .dir) ∨ ∃ name i, p = dir ++ [name] ∧ n = .file i) ∧
        ∃ appended, d'.tape = climbed.2.tape ++ appended ∧ ∀ e ∈ appended, ∃ name,
          d'.tree.lookup (dir ++ [name]) = some (.file e.1) := by
  intro dir
  have hbare : ∀ p n, (bare [ascii "r"]).tree.lookup p = some n → p = [ascii "r"] ∧
    n = .dir := by
    intro p n hn
    rcases DiskTree.lookup_put_cases hn with hold | hnew
    · cases hold
    · exact hnew
  have hflat : ∀ time_ns, Flat [ascii "r"] [ascii "r"]
      (toDec (DiskHost.january.cal.Time2YYYYMMDD time_ns)) (bare [ascii "r"]) := by
    refine fun time_ns => ⟨by decide +kernel, by decide +kernel, fun target h => ?_,
      fun name n h => ?_⟩
    · exact absurd (congrArg List.length (hbare _ _ h).1) (by simp)
    · exact absurd (congrArg List.length (hbare _ _ h).1) (by simp)
  have hday : [ascii "r"] ++ [toDec (DiskHost.january.cal.Time2YYYYMMDD cutOff.time_ns)] = dir := by
    decide +kernel
  have hrun : Machine.run (System.Backend.writeStep (system .january))
      (FilesystemStorageBackend.make [ascii "r"], bare [ascii "r"]) [climbing] = some climbed := rfl
  have hwrite : System.Backend.write (system .january) climbed.1 cutOff climbed.2 =
      (_, _, _) := rfl
  have hall := writer_confined .january hflat hrun hwrite
  simp only [hday] at hall
  exact ⟨hrun, _, _, _, rfl, by decide +kernel, by decide +kernel, by decide +kernel, hall⟩

/-- A day directory without subdirectories, in which a dangling link has the name of a file to
come. -/
def danglingName : Disk :=
  ((bare [ascii "r"]).put [ascii "r", ascii "20240101"] .dir).put
    [ascii "r", ascii "20240101", ascii "000000_a_0.idx"] (.link (ascii "/x"))

/-- A root in which the name of a day is a link to an empty directory. -/
def linkedDay : Disk :=
  ((bare [ascii "r"]).put [ascii "o"] .dir).put [ascii "r", ascii "20240101"] (.link (ascii "/o"))

/-- A file is created outside the root when a link in the day directory has its name, or when the
day directory itself is a link. -/
theorem writer_escapes :
    let write := System.Backend.write (system .january) (FilesystemStorageBackend.make [ascii "r"])
      ⟨ascii "a", 0, ascii "x", 1704067200000000000⟩
    list .january [ascii "r", ascii "20240101"] danglingName = some [ascii "000000_a_0.idx"] ∧
    is_directory .january [ascii "r", ascii "20240101"] (ascii "000000_a_0.idx") danglingName =
      some false ∧
    danglingName.tree.lookup [ascii "x"] = none ∧
    (write danglingName).2.2.tree.lookup [ascii "x"] = some (.file 0) ∧
    (write danglingName).2.2.content 0 ≠ [] ∧
    list .january [ascii "r", ascii "20240101"] linkedDay = some [] ∧
    (write linkedDay).2.2.tree.lookup [ascii "o", ascii "000000_a_0.idx"] = some (.file 0) := by
  intro write
  exact ⟨by decide +kernel, by decide +kernel, by decide +kernel, by decide +kernel,
    by decide +kernel, by decide +kernel, by decide +kernel⟩

end Disk

end Tracebox
