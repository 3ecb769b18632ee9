import Tracebox.Stream.Ledger

/-!
# Where the files of a stream are

The name of a stream's files is made of a channel that may be any byte string.  The system reads it
up to the first NUL, takes it apart at slashes and follows `..`, so the place a name denotes is a
function of the directory and the name, as long as nothing on the way is missing.

* `Path.lexical` — that function; `Tree.resolve_lexical` says that the system agrees with it.
* `lexical_append` — what is put behind a name stays in the last component.
* `StreamWriter.reopenFile_created` — **a successful `reopenFile`** creates the index file at such
  a place, for every channel.
-/

namespace Tracebox

open Bytes

/-! ## Lexical paths -/

/-- What follows a NUL is not part of a C string. -/
lemma cString_append_of_nul {bs : Bytes} (h0 : (0 : UInt8) ∈ bs) (rest : Bytes) :
    cString (bs ++ rest) = cString bs := by
  rw [cString, cString, List.takeWhile_append, if_neg]
  intro hlen
  have htake := (List.takeWhile_prefix (fun b : UInt8 => decide (b ≠ 0))).eq_of_length hlen
  have := List.takeWhile_eq_self_iff.mp htake 0 h0
  simp at this

namespace Path

/-- One component of a text, followed from a directory. -/
def enter (dir : Path) (c : Bytes) : Path :=
  if c = [] ∨ c = [46] then dir else if c = [46, 46] then dir.dropLast else dir ++ [c]

/-- The place a text denotes below a directory if every component on the way is a directory. -/
def lexical (dir : Path) (rel : Bytes) : Path := (splitOn 47 (cString rel)).foldl enter dir

/-- The components of a path as the system has them. -/
def Plain (p : Path) : Prop :=
  ∀ c ∈ p, c ≠ [] ∧ (47 : UInt8) ∉ c ∧ c ≠ [46] ∧ c ≠ [46, 46] ∧
    (0 : UInt8) ∉ c

instance (p : Path) : Decidable (Plain p) := inferInstanceAs (Decidable (∀ c ∈ p, _))

lemma enter_of_mem {c : Bytes} (h : (95 : UInt8) ∈ c) (dir : Path) :
    dir.enter c = dir ++ [c] := by
  have hne : c ≠ [] ∧ c ≠ [46] ∧ c ≠ [46, 46] := by
    refine ⟨?_, ?_, ?_⟩ <;>
    · rintro rfl
      exact absurd h (by decide)
  simp [enter, hne]

/-- Empty components and `.` change nothing. -/
lemma foldl_enter_filter (cs : List Bytes) (dir : Path) :
    (cs.filter fun c => ! (c.isEmpty || c == [46])).foldl enter dir = cs.foldl enter dir := by
  induction cs generalizing dir with
  | nil => rfl
  | cons c cs ih =>
      by_cases hc : c = [] ∨ c = [46]
      · have hskip : dir.enter c = dir := by simp [enter, hc]
        rw [List.filter_cons_of_neg (by simpa [or_iff_not_imp_left] using hc), ih,
          List.foldl_cons, hskip]
      · rw [List.filter_cons_of_pos (by simpa using hc), List.foldl_cons, List.foldl_cons, ih]

lemma foldl_enter_components (rel : Bytes) (dir : Path) :
    (Tree.components rel).foldl enter dir = dir.lexical rel := by
  rcases List.eq_nil_or_concat' (splitOn 47 (cString rel)) with hnil | ⟨init, last, hsplit⟩
  · exact absurd hnil (splitOn_ne_nil 47 _)
  · have hlast : ∀ d : Path, d.enter (if last = [] then [46] else last) = d.enter last := by
      intro d
      split_ifs with h
      · simp [enter, h]
      · rfl
    simp only [Tree.components, lexical, hsplit, List.dropLast_concat, List.getLastD_concat,
      List.foldl_append, foldl_enter_filter, List.foldl_cons, List.foldl_nil, hlast]

/-- **What is put behind a name stays in its last component.**  The underscore keeps that component
from standing for nothing. -/
lemma lexical_append (dir : Path) {name : Bytes} (h0 : (0 : UInt8) ∉ name) :
    ∃ (q : Path) (last : Bytes),
    ∀ ext : Bytes, (0 : UInt8) ∉ ext → (47 : UInt8) ∉ ext → (95 : UInt8) ∈ ext →
      dir.lexical (name ++ ext) = q ++ [last ++ ext] := by
  obtain ⟨init, last, h⟩ := splitOn_append_notMem 47 name
  refine ⟨init.foldl enter dir, last, fun ext he hs hu => ?_⟩
  rw [lexical, cString_of_notMem (by simp [h0, he]), h ext hs, List.foldl_append, List.foldl_cons,
    List.foldl_nil, enter_of_mem (List.mem_append_right _ hu)]

/-- Nothing behind a NUL is looked at. -/
lemma lexical_append_of_nul (dir : Path) {name : Bytes} (h0 : (0 : UInt8) ∈ name) (ext : Bytes) :
    dir.lexical (name ++ ext) = dir.lexical name := by
  rw [lexical, lexical, cString_append_of_nul h0]

/-- **A lexical path is made of plain components.** -/
lemma Plain.lexical {dir : Path} (h : dir.Plain) (rel : Bytes) : (dir.lexical rel).Plain := by
  have hpieces : ∀ c ∈ splitOn 47 (cString rel), (47 : UInt8) ∉ c ∧ (0 : UInt8) ∉ c := by
    intro c hc
    refine ⟨notMem_of_mem_splitOn hc, fun h0 => ?_⟩
    have := List.mem_takeWhile_imp (mem_of_mem_splitOn hc h0)
    simp at this
  have hfold : ∀ (cs : List Bytes) (dir : Path), dir.Plain →
      (∀ c ∈ cs, (47 : UInt8) ∉ c ∧ (0 : UInt8) ∉ c) → (cs.foldl enter dir).Plain := by
    intro cs
    induction cs with
    | nil => exact fun _ hd _ => hd
    | cons c cs ih =>
        intro dir hd hcs
        refine ih _ ?_ fun d hd => hcs d (List.mem_cons_of_mem _ hd)
        obtain ⟨hslash, hnul⟩ := hcs c List.mem_cons_self
        unfold enter
        split_ifs with hdot hdots
        · exact hd
        · exact fun d hmem => hd d (List.mem_of_mem_dropLast hmem)
        · intro d hmem
          rcases List.mem_append.mp hmem with hmem | hmem
          · exact hd d hmem
          · rw [List.mem_singleton.mp hmem]
            obtain ⟨hne, hone⟩ := not_or.mp hdot
            exact ⟨hne, hslash, hone, hdots, hnul⟩
  exact hfold _ dir h hpieces

end Path

/-! ## The system's way to a file -/

namespace Tree

/-- A walk goes where its components say. -/
lemma walk_lexical {t : Tree} : ∀ {cs : List Bytes} {cur p : Path}, (∀ c ∈ cs, c ≠ []) →
    t.walk cur cs = .ok p → p = cs.foldl Path.enter cur
  | [], cur, p, _, h => by
      rw [walk] at h
      cases h
      rfl
  | c :: cs, cur, p, hne, h => by
      have hc := hne c List.mem_cons_self
      have hcs : ∀ d ∈ cs, d ≠ [] := fun d hd => hne d (List.mem_cons_of_mem _ hd)
      rw [walk] at h
      by_cases hlong : NAME_MAX < c.length
      · simp [hlong] at h
      · by_cases hdot : c = [46]
        · rw [if_neg hlong, if_pos hdot] at h
          rw [List.foldl_cons, Path.enter, if_pos (Or.inr hdot)]
          exact walk_lexical hcs h
        · by_cases hdots : c = [46, 46]
          · rw [if_neg hlong, if_neg hdot, if_pos hdots] at h
            rw [List.foldl_cons, Path.enter, if_neg (by simp [hc, hdot]), if_pos hdots]
            exact walk_lexical hcs h
          · rw [if_neg hlong, if_neg hdot, if_neg hdots] at h
            rw [List.foldl_cons, Path.enter, if_neg (by simp [hc, hdot]), if_neg hdots]
            cases hl : t.lookup (cur ++ [c]) with
            | some n =>
                rw [hl] at h
                cases n with
                | dir => exact walk_lexical hcs h
                | file i =>
                    simp only at h
                    split_ifs at h with hnil
                    cases h
                    rw [hnil]
                    rfl
            | none =>
                simp only [hl] at h
                split_ifs at h with hnil
                cases h
                rw [hnil]
                rfl

lemma ne_nil_of_mem_components {rel c : Bytes} (h : c ∈ components rel) : c ≠ [] := by
  rcases List.mem_append.mp h with h | h
  · have := (List.mem_filter.mp h).2
    rintro rfl
    simp at this
  · rw [List.mem_singleton.mp h]
    split_ifs with hlast
    · exact List.cons_ne_nil _ _
    · exact hlast

/-- **The system agrees with the lexical path** when it gets to an end. -/
lemma resolve_lexical {t : Tree} {dir p : Path} {rel : Bytes} (h : t.resolve dir rel = .ok p) :
    p = dir.lexical rel := by
  rw [resolve] at h
  split_ifs at h with hlong hdir
  rw [walk_lexical (fun c hc => ne_nil_of_mem_components hc) h, Path.foldl_enter_components]

/-- More names do not stop a walk. -/
lemma walk_within {t t' : Tree} (ht : t.Within t') : ∀ {cs : List Bytes} {cur p : Path},
    t.walk cur cs = .ok p → t'.walk cur cs = .ok p
  | [], cur, p, h => h
  | c :: cs, cur, p, h => by
      rw [walk] at h ⊢
      by_cases hlong : NAME_MAX < c.length
      · simp [hlong] at h
      · by_cases hdot : c = [46]
        · rw [if_neg hlong, if_pos hdot] at h ⊢
          exact walk_within ht h
        · by_cases hdots : c = [46, 46]
          · rw [if_neg hlong, if_neg hdot, if_pos hdots] at h ⊢
            exact walk_within ht h
          · rw [if_neg hlong, if_neg hdot, if_neg hdots] at h ⊢
            cases hl : t.lookup (cur ++ [c]) with
            | some n =>
                rw [hl] at h
                rw [ht _ _ hl]
                cases n with
                | dir => exact walk_within ht h
                | file i => exact h
            | none =>
                simp only [hl] at h
                split_ifs at h with hnil
                -- the last component may have been created in the meantime
                subst hnil
                split
                · exact h
                · exact h
                · exact h

lemma resolve_within {t t' : Tree} {dir p : Path} {rel : Bytes} (ht : t.Within t')
    (h : t.resolve dir rel = .ok p) : t'.resolve dir rel = .ok p := by
  rw [resolve] at h ⊢
  split_ifs at h with hlong hdir
  rw [if_neg hlong, if_pos (ht _ _ hdir)]
  exact walk_within ht h

end Tree

/-! ## New files -/

namespace StreamWriter

variable {host : Host} {s s' : StreamWriter} {time_ns : UInt64} {w w' : World} {file_name : Bytes}
  {p : Path} {v : ℤ}

/-- The writer as it is when `openFile` names its files. -/
abbrev named (s : StreamWriter) (request : LogRequest) : StreamWriter :=
  { s with name_ := request.channel, record_size_ := request.size }

/-- The inode of the data file a writer has open. -/
def dataInode (s : StreamWriter) : ℕ := (s.data_.getD .unopened).inode

/-- The names the loop of `reopenFile` tries differ behind the channel only, in digits and
underscores. -/
lemma candidates (host : Host) (s : StreamWriter) (time_ns : UInt64) : ∃ stem : Bytes,
    (∀ b, isDigit b = false → b ≠ 95 → (b ∈ stem ↔ b ∈ s.name_)) ∧
    ∀ name, Candidate (s.fileName host time_ns) name →
      ∃ ext, name = stem ++ 95 :: ext ∧ ∀ b ∈ ext, isDigit b = true ∨ b = 95 := by
  obtain ⟨stem, hstem⟩ : ∃ stem, stem = pad2 (host.cal.localtime time_ns).tm_hour ++
    pad2 (host.cal.localtime time_ns).tm_min ++ pad2 (host.cal.localtime time_ns).tm_sec ++
      95 :: s.name_ := ⟨_, rfl⟩
  have hbase : s.fileName host time_ns = stem ++ 95 :: toDec s.record_size_.toNat := by
    simp [fileName, hstem]
  have hdec : ∀ n, ∀ b ∈ toDec n, isDigit b = true ∨ b = 95 := fun n b hb =>
    Or.inl (isDigit_of_mem_toDec hb)
  refine ⟨stem, fun b hb hu => ⟨fun h => ?_, fun h => ?_⟩, ?_⟩
  · by_contra hnot
    have hname : b ∉ s.fileName host time_ns := notMem_candidate hb hu hnot (Or.inl rfl)
    rw [hbase] at hname
    exact hname (List.mem_append_left _ h)
  · rw [hstem]
    exact List.mem_append_right _ (List.mem_cons_of_mem _ h)
  · rintro name (rfl | ⟨k, rfl⟩)
    · exact ⟨_, hbase, hdec _⟩
    · refine ⟨toDec s.record_size_.toNat ++ 95 :: toDec (k % 2 ^ 32), ?_, fun b hb => ?_⟩
      · rw [hbase, List.append_assoc, List.cons_append]
      · rcases List.mem_append.mp hb with hb | hb
        · exact hdec _ b hb
        · rcases List.mem_cons.mp hb with rfl | hb
          · exact Or.inr rfl
          · exact hdec _ b hb

/-- **Without a NUL, all these names lie in one directory** and differ at their end only, also with
an extension `e` behind them. -/
lemma candidate_places (host : Host) {s : StreamWriter} (time_ns : UInt64)
    (h0 : (0 : UInt8) ∉ s.name_) : ∃ (stem : Bytes) (q : Path) (last : Bytes),
      ∀ name, Candidate (s.fileName host time_ns) name → ∃ ext : Bytes,
        name = stem ++ 95 :: ext ∧ (∀ b, isDigit b = false → b ≠ 95 → b ∉ 95 :: ext) ∧
        ∀ e : Bytes, (0 : UInt8) ∉ e → (47 : UInt8) ∉ e →
          s.folder_.lexical (name ++ e) = q ++ [(last ++ 95 :: ext) ++ e] := by
  obtain ⟨stem, hstem, hcandidates⟩ := candidates host s time_ns
  have hnul : (0 : UInt8) ∉ stem := fun h => h0 ((hstem 0 (by decide) (by decide)).mp h)
  obtain ⟨q, last, hlex⟩ := Path.lexical_append s.folder_ hnul
  refine ⟨stem, q, last, fun name hc => ?_⟩
  obtain ⟨ext, rfl, hext⟩ := hcandidates name hc
  have hplain : ∀ b, isDigit b = false → b ≠ 95 → b ∉ 95 :: ext := by
    intro b hb hu hmem
    rcases List.mem_cons.mp hmem with rfl | hmem
    · exact hu rfl
    · rcases hext b hmem with h | h
      · rw [hb] at h
        exact Bool.noConfusion h
      · exact hu h
  have h0ext := hplain 0 (by decide) (by decide)
  have h47ext := hplain 47 (by decide) (by decide)
  refine ⟨ext, rfl, hplain, fun e he hs => ?_⟩
  rw [List.append_assoc, hlex _ (fun h => (List.mem_append.mp h).elim h0ext he)
    (fun h => (List.mem_append.mp h).elim h47ext hs)
    (List.mem_append_left _ List.mem_cons_self), ← List.append_assoc]

/-- What a successful `reopenFile` leaves behind: a new index file at the place its name denotes,
and for variable-size records a data file.  When the name has a NUL in it, the extension is never
looked at and the data file is the same file. -/
structure Created (host : Host) (s s' : StreamWriter) (w w' : World) (time_ns : UInt64)
    (file_name : Bytes) (p : Path) (v : ℤ) : Prop where
  value : v = if s.record_size_ = 0 then 98 else 49
  candidate : Candidate (s.fileName host time_ns) file_name
  place : p = s.folder_.lexical (file_name ++ dotIdx)
  size : s'.record_size_ = s.record_size_
  index : s'.index_ = some ⟨w.inodes, true⟩
  data : s.record_size_ = 0 → s'.data_ = some ⟨s'.dataInode, true⟩ ∧
    s'.dataInode < w'.inodes ∧ s'.offset_.toNat = sizeofLogFileHeader
  inodes : w.inodes < w'.inodes
  lookup : ∀ q, w'.tree.lookup q = some (.file w.inodes) ↔ q = p
  tape : w'.tape = w.tape ++ (Tape.tag w.inodes (s.header time_ns kIndexFile).encode ++
    if s.record_size_ = 0 then Tape.tag s'.dataInode (s.header time_ns kDataFile).encode else [])
  same : s.record_size_ = 0 → (0 : UInt8) ∈ file_name → s'.dataInode = w.inodes

lemma Created.indexInode (h : Created host s s' w w' time_ns file_name p v) :
    s'.indexInode = w.inodes := by
  rw [StreamWriter.indexInode, h.index]
  rfl

/-- The index file begins with its header. -/
lemma Created.content (h : Created host s s' w w' time_ns file_name p v) :
    (s.header time_ns kIndexFile).encode <+: w'.content w.inodes := by
  rw [World.content, h.tape, Tape.project_append, Tape.project_append, Tape.project_tag_self,
    ← World.content, World.content_of_le le_rfl, List.nil_append]
  exact List.prefix_append _ _

/-- How an open handle came about: the file was there, or it is new. -/
lemma open_cases {dir : Path} {rel : Bytes} (h : (FileIo.open_ host dir rel w).1.is_open = true) :
    ∃ q, w.tree.resolve dir rel = .ok q ∧
      ((∃ i, w.tree.lookup q = some (.file i) ∧
          FileIo.open_ host dir rel w = (⟨i, true⟩, w.called)) ∨
        (w.tree.lookup q = none ∧
          FileIo.open_ host dir rel w = (⟨w.inodes, true⟩, (w.create q).called))) := by
  obtain ⟨q, hq, hnew⟩ := open_inv h
  refine ⟨q, hq, ?_⟩
  cases hl : w.tree.lookup q with
  | none => exact Or.inr ⟨rfl, hnew hl⟩
  | some n =>
      unfold FileIo.open_ at h ⊢
      rw [hq] at h ⊢
      cases ho : host.outcome w.calls with
      | fail kept => simp [ho, FileIo.unopened] at h
      | throws => simp [ho, FileIo.unopened] at h
      | ok =>
          cases n with
          | dir => simp [ho, hl, FileIo.unopened] at h
          | file i => exact Or.inl ⟨i, rfl, by simp [hl]⟩

/-- The system does not look behind a NUL. -/
lemma resolve_nul (t : Tree) (dir : Path) (h0 : (0 : UInt8) ∈ file_name) (ext : Bytes) :
    t.resolve dir (file_name ++ ext) = t.resolve dir file_name := by
  rw [Tree.resolve, Tree.resolve, Tree.pathTooLong, Tree.pathTooLong, Tree.components,
    Tree.components, cString_append_of_nul h0]

/-- What `reopenData` does on success. -/
lemma reopenData_created {index : FileIo} {result : ℤ} (hv : 0 < v)
    (h : s.reopenData host file_name index time_ns result w = (.ret v, s', w')) :
    v = result + 49 ∧ s' = { s with
        data_ := some ⟨s'.dataInode, true⟩, offset_ := UInt32.ofNat 49,
        last_flush_ := s'.last_flush_ } ∧
      s'.dataInode < w'.inodes ∧ w.inodes ≤ w'.inodes ∧
      w'.tape = w.tape ++ Tape.tag s'.dataInode (s.header time_ns kDataFile).encode ∧
      ∃ q, w.tree.resolve s.folder_ (file_name ++ dotData) = .ok q ∧
        ((w.tree.lookup q = some (.file s'.dataInode) ∧ w'.tree = w.tree) ∨
          (w.tree.lookup q = none ∧ w'.tree = w.tree.add q (.file w.inodes))) := by
  have hneg : (-EINVAL : ℤ) < 0 := by decide
  unfold reopenData at h
  by_cases hopen : (FileIo.open_ host s.folder_ (file_name ++ dotData) w).1.is_open = true
  · obtain ⟨q, hq, hcases⟩ := open_cases hopen
    -- the handle, and the world it writes its header to
    obtain ⟨i, w₁, heq, hlt, hinodes, htape, htree⟩ : ∃ i w₁,
        FileIo.open_ host s.folder_ (file_name ++ dotData) w = (⟨i, true⟩, w₁) ∧
          i < w₁.inodes ∧
        w.inodes ≤ w₁.inodes ∧ w₁.tape = w.tape ∧
        ((w.tree.lookup q = some (.file i) ∧ w₁.tree = w.tree) ∨
          (w.tree.lookup q = none ∧ w₁.tree = w.tree.add q (.file w.inodes))) := by
      rcases hcases with ⟨i, hl, heq⟩ | ⟨hl, heq⟩
      · exact ⟨i, _, heq, w.linked q i hl, le_rfl, rfl, Or.inl ⟨hl, rfl⟩⟩
      · exact ⟨_, _, heq, Nat.lt_succ_self _, Nat.le_succ _, rfl, Or.inr ⟨hl, rfl⟩⟩
    simp only [heq, if_true] at h
    split_ifs at h with hr
    · simp only [Prod.mk.injEq, Outcome.ret.injEq] at h
      omega
    · obtain ⟨hvalue, e⟩ := writeHeader_pos (f := ⟨i, true⟩) hlt (not_lt.mp hr)
      simp only [opened, hvalue, Prod.mk.injEq, Outcome.ret.injEq] at h
      obtain ⟨rfl, rfl, rfl⟩ := h
      refine ⟨rfl, rfl, ?_, ?_, ?_, q, hq, ?_⟩
      · rw [World.inodes_now, e.inodes]
        exact hlt
      · rw [World.inodes_now, e.inodes]
        exact hinodes
      · rw [World.tape_now, e.tape, htape]
        rfl
      · rw [World.tree_now, e.tree]
        exact htree
  · simp only [hopen, if_false, hneg, if_true, Prod.mk.injEq, Outcome.ret.injEq,
      Bool.false_eq_true] at h
    omega

/-- **A successful `reopenFile`**, for every channel. -/
lemma reopenFile_created (h : s.reopenFile host time_ns w = (.ret v, s', w')) (hv : 0 < v) :
    ∃ file_name p, Created host s s' w w' time_ns file_name p v := by
  have hneg : ¬ (0 : ℤ) < -EINVAL := by decide
  simp only [reopenFile] at h
  split at h
  · simp at h
  · simp at h
  · rename_i file_name hfound
    obtain ⟨hcand, hidx, -⟩ := searchName_found (Or.inl rfl) hfound
    unfold reopenAs at h
    by_cases hopen : (FileIo.open_ host s.folder_ (file_name ++ dotIdx) w).1.is_open = true
    · obtain ⟨p, hp, heq⟩ := open_inv hopen
      have hfree := notMem_of_exists_false hidx hp
      have hold : ∀ q, w.tree.lookup q ≠ some (.file w.inodes) := fun q hq =>
        absurd (w.linked q _ hq) (lt_irrefl _)
      have hnew : ∀ q, (w.tree.add p (.file w.inodes)).lookup q =
        some (.file w.inodes) ↔ q = p := by
        intro q
        rw [Tree.lookup_add _ hfree]
        split_ifs with hq
        · simp [hq]
        · simp [hq, hold q]
      obtain ⟨s₁, hs₁⟩ : ∃ s₁ : StreamWriter, s₁ = { s with
        offset_ := 0, index_ := some ⟨w.inodes, true⟩ } := ⟨_, rfl⟩
      simp only [heq hfree, not_true_eq_false, if_false, ← hs₁] at h
      obtain ⟨⟨r, w₁⟩, hw₁⟩ : ∃ x, x = s₁.writeHeader host ⟨w.inodes, true⟩
        time_ns kIndexFile
        (w.create p).called := ⟨_, rfl⟩
      have hhead : 0 < r → r = (sizeofLogFileHeader : ℤ) ∧ (w.create p).called.Extends w₁
          (Tape.tag w.inodes (s.header time_ns kIndexFile).encode) := by
        intro hr
        have hpos := @writeHeader_pos host s₁ ⟨w.inodes, true⟩ time_ns kIndexFile
          (w.create p).called (by simp)
        rw [← hw₁] at hpos
        have hsame : s₁.header time_ns kIndexFile = s.header time_ns kIndexFile := by
          rw [hs₁]; rfl
        rw [← hsame]
        exact hpos hr.le
      simp only [← hw₁] at h
      split_ifs at h with hr hsize
      · simp only [Prod.mk.injEq, Outcome.ret.injEq] at h
        omega
      · -- the data file is opened in a tree that has the index file
        obtain ⟨rfl, e⟩ := hhead (not_le.mp hr)
        obtain ⟨hvalue, hs', hlt, hinodes, htape, q, hq, htree⟩ := reopenData_created hv h
        have hone : w₁.inodes = w.inodes + 1 := e.inodes
        have hin : w.tree.Within w₁.tree := fun _ _ hl => by
          rw [e.tree]
          exact Tree.lookup_add_of_some _ hl
        refine ⟨file_name, p, ?_, hcand, Tree.resolve_lexical hp, ?_, ?_, fun _ =>
          ⟨?_, hlt, ?_⟩, by omega, fun q' => ?_, ?_, fun _ h0 => ?_⟩
        · rw [hvalue, if_pos hsize]
          rfl
        · rw [hs', hs₁]
        · rw [hs', hs₁]
        · rw [hs']
          rfl
        · rw [hs']
          rfl
        · rw [← hnew q']
          rcases htree with ⟨-, htree⟩ | ⟨hfree', htree⟩
          · rw [htree, e.tree]
            rfl
          · rw [htree, Tree.lookup_add _ hfree', e.tree, e.inodes]
            split_ifs with hqq
            · rw [e.tree, ← hqq] at hfree'
              have hnone : (w.tree.add p (.file w.inodes)).lookup q' = none := hfree'
              simp [hnone]
            · rfl
        · rw [htape, e.tape, if_pos hsize, List.append_assoc, hs₁]
          rfl
        · have hqp : w₁.tree.resolve s.folder_ (file_name ++ dotData) = .ok p := by
            rw [resolve_nul _ _ h0, ← resolve_nul _ _ h0 dotIdx]
            exact Tree.resolve_within hin hp
          have hfolder : s₁.folder_ = s.folder_ := by rw [hs₁]
          rw [hfolder, hqp] at hq
          cases hq
          have hl : w₁.tree.lookup p = some (.file w.inodes) := by
            rw [e.tree]
            exact (hnew p).mpr rfl
          rcases htree with ⟨hl', -⟩ | ⟨hl', -⟩
          · rw [hl] at hl'
            exact (Node.file.inj (Option.some.inj hl')).symm
          · rw [hl] at hl'
            cases hl'
      · obtain ⟨rfl, e⟩ := hhead (not_le.mp hr)
        simp only [opened, Prod.mk.injEq, Outcome.ret.injEq] at h
        obtain ⟨rfl, rfl, rfl⟩ := h
        refine ⟨file_name, p, ?_, hcand, Tree.resolve_lexical hp, ?_, ?_, fun h0 =>
          absurd h0 hsize, ?_, fun q' => ?_, ?_, fun h0 => absurd h0 hsize⟩
        · rw [if_neg hsize]
          rfl
        · rw [hs₁]
        · rw [hs₁]
        · rw [World.inodes_now, e.inodes]
          exact Nat.lt_succ_self _
        · rw [World.tree_now, e.tree]
          exact hnew q'
        · rw [World.tape_now, e.tape, if_neg hsize, List.append_nil]
          rfl
    · simp only [hopen, not_false_eq_true, if_true, Prod.mk.injEq, Outcome.ret.injEq,
        Bool.false_eq_true] at h
      exact absurd (h.1 ▸ hv) hneg

end StreamWriter

end Tracebox
