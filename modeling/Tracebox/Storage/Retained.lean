import Tracebox.Lib.Archive
import Tracebox.Reader.Answers
import Tracebox.Storage.Acknowledged

/-!
# The storage as an archive

What a storage is for: it keeps the records it has acknowledged under their days, and gives up whole
days, oldest first, when it needs room.

* `Prunes` — what a deletion does, and `Prunes.shows`, what is shown after it.
* `Attended` — the files of the active folder, also when its directory has been deleted.
* `Retains` — the invariant of the storage between two calls, on any root.
* `backend_write_found`, `storage_write_turn` — **a call is one turn of an archive**.
* `storage_is_archive` — **and a storage is an archive**, from its constructor to its destructor.
-/

namespace Tracebox

open Bytes FilesystemStorageBackend

/-! ## Deleting directories -/

/-- The directories of some names went with all that was in them, and nothing else happened. -/
structure Prunes (root : Path) (names : List Bytes) (w w' : World) : Prop where
  tape : w'.tape = w.tape
  inodes : w'.inodes = w.inodes
  lookup : ∀ p, w'.tree.lookup p =
    if ∃ name ∈ names, root ++ [name] <+: p then none else w.tree.lookup p

variable {host : Host} {root : Path} {w w₁ w' : World} {b : FilesystemStorageBackend}
  {overrun : Path → Bytes} {start end_ : UInt64}

/-- The day directories that are there at first and not afterwards. -/
def FilesystemStorageBackend.evicted (b : FilesystemStorageBackend) (w w' : World) : List Bytes :=
  (b.dayDirs w).filter fun day =>
    decide (w'.tree.lookup (b.folder_path_ ++ [day]) ≠ some .dir)

lemma mem_evicted {day : Bytes} : day ∈ b.evicted w w' ↔
    w.tree.lookup (b.folder_path_ ++ [day]) = some .dir ∧
      w'.tree.lookup (b.folder_path_ ++ [day]) ≠ some .dir := by
  rw [evicted, List.mem_filter, mem_dayDirs, decide_eq_true_iff]

/-- What is seen at a path that leads to the same file with the same content. -/
lemma look_congr {q : Path} (hlookup : w'.tree.lookup q = w.tree.lookup q)
    (hcontent : ∀ i, w.tree.lookup q = some (.file i) → w'.content i = w.content i) :
    (w'.asIs overrun).look q = (w.asIs overrun).look q := by
  simp only [World.view, hlookup]
  cases hn : w.tree.lookup q with
  | none => rfl
  | some n =>
      cases n with
      | dir => rfl
      | file i => simp only [hcontent i hn]

namespace Prunes

lemma refl (root : Path) (w : World) : Prunes root [] w w := ⟨rfl, rfl, fun p => by simp⟩

/-- First one directory, then others. -/
lemma cons {name : Bytes} {names : List Bytes}
    (h : Prunes root names (w.remove_all (root ++ [name])) w') :
    Prunes root (name :: names) w w' where
  tape := h.tape
  inodes := h.inodes
  lookup p := by
    rw [h.lookup, World.tree_remove_all, Tree.lookup_remove_all]
    by_cases hfirst : root ++ [name] <+: p
    · simp [hfirst]
    · simp [hfirst]

lemma content (h : Prunes root names w w') (i : ℕ) : w'.content i = w.content i := by
  rw [World.content, h.tape, World.content]

variable {names : List Bytes} {day name : Bytes}

/-- Whatever is in a day directory goes with it. -/
lemma inside (h : Prunes root names w w') (day name : Bytes) :
    w'.tree.lookup (root ++ [day] ++ [name]) =
      if day ∈ names then none else w.tree.lookup (root ++ [day] ++ [name]) := by
  rw [h.lookup]
  refine if_congr ⟨?_, fun hday => ⟨day, hday, List.prefix_append _ _⟩⟩ rfl rfl
  rintro ⟨d, hd, hp⟩
  rw [List.append_assoc, List.prefix_append_right_inj] at hp
  rwa [(List.cons_prefix_cons.mp hp).1] at hd

lemma outside (h : Prunes root names w w') (day : Bytes) :
    w'.tree.lookup (root ++ [day]) =
      if day ∈ names then none else w.tree.lookup (root ++ [day]) := by
  rw [h.lookup]
  refine if_congr ⟨?_, fun hday => ⟨day, hday, List.prefix_rfl⟩⟩ rfl rfl
  rintro ⟨d, hd, hp⟩
  rw [List.prefix_append_right_inj] at hp
  rwa [(List.cons_prefix_cons.mp hp).1] at hd

lemma settled (h : Prunes root names w w') (hw : Settled root w) : Settled root w' where
  dir := by
    rw [h.lookup, if_neg]
    · exact hw.dir
    · rintro ⟨d, -, hp⟩
      simpa using hp.length_le
  plain day name n hn := by
    rw [h.inside] at hn
    split_ifs at hn
    exact hw.plain day name n hn
  parent day name n hn := by
    rw [h.inside] at hn
    split_ifs at hn with hday
    rw [h.outside, if_neg hday]
    exact hw.parent day name n hn
  index day name i hi := by
    rw [h.inside] at hi
    split_ifs at hi
    exact hw.index day name i hi

/-- **What is shown after a deletion**: the archive without the directories that are gone. -/
lemma shows (h : Prunes b.folder_path_ names w w') (hw : Settled b.folder_path_ w) {cal : Calendar}
    {log : Archive Bytes (Bytes × DataPiece)}
    (hlog : Shows b.folder_path_ cal overrun start end_ w log) :
    Shows b.folder_path_ cal overrun start end_ w' (log.without (b.evicted w w')) := by
  refine hlog.drops hw (h.settled hw) (fun d hd => (mem_evicted.mp hd).2) fun d hd name => ?_
  by_cases hday : d ∈ names
  · -- there was no such directory
    have hnone : w.tree.lookup (b.folder_path_ ++ [d] ++ [name]) = none := by
      by_contra hsome
      obtain ⟨n, hn⟩ := Option.ne_none_iff_exists'.mp hsome
      refine hd (mem_evicted.mpr ⟨hw.parent d name n hn, ?_⟩)
      rw [h.outside, if_pos hday]
      intro heq
      cases heq
    rw [foundAt_of_none hnone, foundAt_of_none (by rw [h.inside, if_pos hday])]
  · have hsame : ∀ name, (w'.asIs overrun).look (b.folder_path_ ++ [d] ++ [name]) =
        (w.asIs overrun).look (b.folder_path_ ++ [d] ++ [name]) := fun name =>
      look_congr (by rw [h.inside, if_neg hday]) fun i _ => h.content i
    exact foundAt_congr hw (hsame name) fun leaf _ => hsame (leaf ++ dotData)

end Prunes

/-- The directories that `Storage::write` deletes. -/
lemma Evicts.prunes {need available available' : ℕ} {names : List Bytes}
    (h : Evicts b need available w names available' w') : Prunes b.folder_path_ names w w' := by
  induction h with
  | stop => exact .refl _ _
  | evict hneed hday hdelete hrest ih =>
      obtain ⟨-, -, rfl⟩ := deleteFolder_eq_some hdelete
      exact ih.cons

/-- The directories that the constructor deletes. -/
lemma startLoop_prunes {used fuel : ℕ} : ∀ {available available' : ℕ} {w w' : World},
    Storage.startLoop b used fuel available w = .done available' w' →
      ∃ names, Prunes b.folder_path_ names w w' := by
  induction fuel with
  | zero => intro available available' w w' h; cases h
  | succ fuel ih =>
      intro available available' w w' h
      rw [Storage.startLoop] at h
      split_ifs at h with hused
      · cases h
        exact ⟨[], .refl _ _⟩
      · cases hremove : b.removeOldest w with
        | none => simp only [hremove] at h; cases h
        | some r =>
            simp only [hremove] at h
            obtain ⟨names, hrest⟩ := ih h
            unfold removeOldest at hremove
            split_ifs at hremove with hroot hmax
            · cases hremove
              exact ⟨names, hrest⟩
            · obtain ⟨⟨freed, w₁⟩, hdelete, rfl⟩ := Option.map_eq_some_iff.mp hremove
              obtain ⟨-, -, rfl⟩ := deleteFolder_eq_some hdelete
              exact ⟨_, hrest.cons⟩

lemma make_prunes {folder : Path} {max_size : ℤ} {st : Storage}
    (h : Storage.make folder max_size w = some (st, w')) : ∃ names, Prunes folder names w w' := by
  simp only [Storage.make] at h
  cases hroom : Storage.startLoop (FilesystemStorageBackend.make folder)
      ((FilesystemStorageBackend.make folder).usedBytes w) (w.tree.entries.length + 2)
      (toSize max_size) w with
  | done available w₁ =>
      rw [hroom] at h
      split_ifs at h
      simp only [Option.some.injEq, Prod.mk.injEq] at h
      obtain ⟨-, rfl⟩ := h
      exact startLoop_prunes hroom
  | full available w₁ => rw [hroom] at h; split_ifs at h
  | thrown available w₁ => rw [hroom] at h; split_ifs at h
  | hangs => rw [hroom] at h; split_ifs at h

/-! ## The files of a session -/

/-- Every file from inode `n` on has one name. -/
def World.Single (n : ℕ) (w : World) : Prop :=
  ∀ p q i, n ≤ i → w.tree.lookup p = some (.file i) →
    w.tree.lookup q = some (.file i) → p = q

/-- No file gets a second name. -/
lemma World.Single.reaches {D : Path → Prop} {n : ℕ} (h : w.Reaches D w') (hs : w.Single n) :
    w'.Single n := fun p q i hi hp hq =>
  (h.one_name (S := fun _ i => n ≤ i) (fun p q i hi hp hq => (hs p q i hi hp hq).symm) p q i hi hp
    hq).symm

lemma World.Single.prunes {names : List Bytes} {n : ℕ} (h : Prunes root names w w')
    (hs : w.Single n) : w'.Single n := by
  have hold : ∀ q i, w'.tree.lookup q = some (.file i) → w.tree.lookup q = some (.file i) := by
    intro q i hq
    rw [h.lookup] at hq
    split_ifs at hq
    exact hq
  exact fun p q i hi hp hq => hs p q i hi (hold p i hp) (hold q i hq)

/-- **The files of the active folder.**  Its writers keep the pairs, which hold requests of the past
in the order of the calls.  As long as the directory is there, the paths lead to the files, and once
it is gone no path does. -/
structure Attended (n : ℕ) (past : List LogRequest) (dir : Path) (w : World)
    (pairs : List FilePair) : Prop where
  kept : ∀ p ∈ pairs, p.Kept w
  apart : pairs.Pairwise FilePair.Apart
  sound : ∀ p ∈ pairs, p.stream.Sound
  small : ∀ p ∈ pairs, p.stream.record_size ≠ 0 → p.stream.index.length < 2 ^ 32
  placed : ∀ p ∈ pairs, p.Placed dir
  recent : ∀ p ∈ pairs, n ≤ p.index ∧ n ≤ p.data
  told : ∀ p ∈ pairs, ∀ r ∈ p.stream.records, ∃ request ∈ past,
    request.channel = p.stream.channel ∧ request.record = r
  times : ∀ p ∈ pairs, ∀ r ∈ p.stream.records, r.time_ns ≠ 0
  sorted : ∀ p ∈ pairs, p.stream.records.Pairwise fun a b => a.time_ns ≤ b.time_ns
  linked : w.tree.lookup dir = some .dir → ∀ p ∈ pairs, p.Linked w
  gone : w.tree.lookup dir ≠ some .dir → ∀ p ∈ pairs, ∀ q i,
    w.tree.lookup q = some (.file i) → p.owns (i, 0) = false

namespace Attended

variable {n : ℕ} {past : List LogRequest} {dir : Path} {pairs pairs' : List FilePair}

/-- Nothing is open yet. -/
lemma nil (n : ℕ) (past : List LogRequest) (dir : Path) (w : World) :
    Attended n past dir w [] where
  kept := by simp
  apart := List.Pairwise.nil
  sound := by simp
  small := by simp
  placed := by simp
  recent := by simp
  told := by simp
  times := by simp
  sorted := by simp
  linked := by simp
  gone := by simp

lemma eq_of_index (h : Attended n past dir w pairs) (f : FilePair) (hf : f ∈ pairs) (g : FilePair)
    (hg : g ∈ pairs) (hi : f.index = g.index) : f = g := by
  by_contra hne
  have hap : f.Apart g := h.apart.forall hf hg hne
  have hout := hap (f.index, 0) (FilePair.owns_iff.mpr (Or.inl rfl))
  exact (FilePair.owns_false_iff.mp hout).1 hi

lemma later (h : Attended n past dir w pairs) (request : LogRequest) :
    Attended n (past ++ [request]) dir w pairs :=
  { h with
    told := fun p hp r hr => by
      obtain ⟨old, hold, htold⟩ := h.told p hp r hr
      exact ⟨old, List.mem_append_left _ hold, htold⟩ }

lemma of_extends_nil (h : Attended n past dir w pairs) (e : w.Extends w' []) :
    Attended n past dir w' pairs :=
  { h with
    kept := fun p hp => (h.kept p hp).adds (World.Adds.of_extends e (by simp))
    linked := fun hdir p hp => (h.linked (e.tree ▸ hdir) p hp).extends e
    gone := fun hdir p hp q i hq => h.gone (e.tree ▸ hdir) p hp q i (e.tree ▸ hq) }

/-- Deleted directories. -/
lemma prunes {names : List Bytes} {day : Bytes} (h : Attended n past (root ++ [day]) w pairs)
    (hs : w.Single n) (hp : Prunes root names w w') :
    Attended n past (root ++ [day]) w' pairs :=
  { h with
    kept := fun p hmem => (h.kept p hmem).grow (t := []) (by rw [hp.tape, List.append_nil])
      hp.inodes.ge (by simp)
    linked := fun hdir p hmem => by
      have hday : day ∉ names := fun hday => by
        rw [hp.outside, if_pos hday] at hdir
        cases hdir
      have hl := h.linked (by rwa [hp.outside, if_neg hday] at hdir) p hmem
      have hpath := (h.placed p hmem).dir
      refine ⟨fun q => ⟨fun hq => ?_, ?_⟩, fun h0 => ?_⟩
      · rw [hp.lookup] at hq
        split_ifs at hq
        exact (hl.index q).mp hq
      · rintro rfl
        have hold := (hl.index _).mpr rfl
        rw [FilePair.indexPath, StreamWriter.indexPath, hpath] at hold ⊢
        rwa [hp.inside, if_neg hday]
      · have hold := hl.data h0
        rw [FilePair.dataPath, StreamWriter.dataPath, hpath] at hold ⊢
        rwa [hp.inside, if_neg hday]
    gone := fun hdir p hmem q i hq => by
      have hold : w.tree.lookup q = some (.file i) ∧ ¬ ∃ name ∈ names, root ++
        [name] <+: q := by
        rw [hp.lookup] at hq
        split_ifs at hq with hgone
        exact ⟨hq, hgone⟩
      by_cases hthere : w.tree.lookup (root ++ [day]) = some .dir
      · -- the directory has just gone, and the files with it
        have hday : day ∈ names := by
          by_contra hday
          rw [hp.outside, if_neg hday] at hdir
          exact hdir hthere
        have hl := h.linked hthere p hmem
        have hpath := (h.placed p hmem).dir
        refine FilePair.owns_false_iff.mpr ⟨fun (heq : i = p.index) => ?_,
          fun h0 (heq : i = p.data) => ?_⟩
        · obtain rfl := (hl.index q).mp (heq ▸ hold.1)
          refine hold.2 ⟨day, hday, ?_⟩
          rw [FilePair.indexPath, StreamWriter.indexPath, hpath]
          exact List.prefix_append _ _
        · obtain rfl := hs q p.dataPath i (heq ▸ (h.recent p hmem).2) hold.1 (heq ▸ hl.data h0)
          refine hold.2 ⟨day, hday, ?_⟩
          rw [FilePair.dataPath, StreamWriter.dataPath, hpath]
          exact List.prefix_append _ _
      · exact h.gone hthere p hmem q i hold.1 }

/-- What holds of the pair with the new record and of all others. -/
lemma forall_mem_bump (h : Attended n past dir w pairs) {f : FilePair}
    (hf : f ∈ pairs) (r : Record)
    {P : FilePair → Prop} (hother : ∀ g ∈ pairs, g ≠ f → P g) (hself : P (f.push r)) :
    ∀ g ∈ pairs.map (Books.bump f.index r), P g := by
  intro g' hg'
  obtain ⟨g, hg, rfl⟩ := List.mem_map.mp hg'
  by_cases hi : g.index = f.index
  · rw [Books.bump, if_pos hi, h.eq_of_index g hg f hf hi]
    exact hself
  · rw [Books.bump, if_neg hi]
    exact hother g hg fun heq => hi (heq ▸ rfl)

/-- **One more record** in one of the pairs. -/
lemma append (h : Attended n past dir w pairs) {request : LogRequest} (hr : request.Proper)
    {f : FilePair} (hf : f ∈ pairs) (hchannel : f.stream.channel = request.channel)
    (hlater : ∀ old ∈ past, old.channel = request.channel → old.time_ns ≤ request.time_ns)
    (e : w.Extends w' (StreamWriter.blocks f.stream f.index f.data request.record))
    (hs : (f.stream.push request.record).Sound)
    (hsmall : f.stream.record_size ≠ 0 →
      (f.stream.push request.record).index.length < 2 ^ 32) :
    Attended n (past ++ [request]) dir w' (pairs.map (Books.bump f.index request.record)) := by
  have hmem : ∀ r ∈ (f.push request.record).stream.records,
      r ∈ f.stream.records ∨ r = request.record := fun r hr =>
    (List.mem_append.mp hr).imp_right List.mem_singleton.mp
  have hlinked : ∀ g : FilePair, g.Linked w → g.Linked w' := fun g hl => hl.extends e
  refine ⟨?_, ?_, ?_, ?_, ?_, ?_, ?_, ?_, ?_, fun hdir => ?_, fun hdir => ?_⟩
  · refine h.forall_mem_bump hf _ (fun g hg hne => ?_) ((h.kept f hf).push e)
    have hap : f.Apart g := h.apart.forall hf hg hne.symm
    exact (h.kept g hg).grow e.tape e.inodes.ge fun x hx => hap x (FilePair.owns_blocks hx)
  · rw [List.pairwise_map]
    refine h.apart.imp fun hap x hx => ?_
    rw [Books.owns_bump] at hx ⊢
    exact hap x hx
  · exact h.forall_mem_bump hf _ (fun g hg _ => h.sound g hg) hs
  · exact h.forall_mem_bump hf _ (fun g hg _ => h.small g hg) hsmall
  · exact h.forall_mem_bump hf _ (fun g hg _ => h.placed g hg) ((h.placed f hf).push _)
  · exact h.forall_mem_bump hf _ (fun g hg _ => h.recent g hg) (h.recent f hf)
  · refine h.forall_mem_bump hf _ (fun g hg _ => (h.later request).told g hg) fun r hr => ?_
    rcases hmem r hr with hr | rfl
    · exact (h.later request).told f hf r hr
    · exact ⟨request, List.mem_append_right _ (List.mem_singleton_self _), hchannel.symm, rfl⟩
  · refine h.forall_mem_bump hf _ (fun g hg _ => h.times g hg) fun r hmem' => ?_
    rcases hmem r hmem' with hmem' | rfl
    · exact h.times f hf r hmem'
    · exact hr.time
  · refine h.forall_mem_bump hf _ (fun g hg _ => h.sorted g hg) ?_
    refine List.pairwise_append.mpr ⟨h.sorted f hf, List.pairwise_singleton _ _,
      fun r hr x hx => ?_⟩
    obtain ⟨old, hold, hsame, rfl⟩ := h.told f hf r hr
    rw [List.mem_singleton.mp hx]
    exact hlater old hold (hsame.trans hchannel)
  · rw [e.tree] at hdir
    refine h.forall_mem_bump hf _ (fun g hg _ => hlinked g (h.linked hdir g hg)) ?_
    have hl := hlinked f (h.linked hdir f hf)
    exact ⟨hl.index, hl.data⟩
  · rw [e.tree] at hdir ⊢
    exact h.forall_mem_bump hf _ (fun g hg _ => h.gone hdir g hg) (h.gone hdir f hf)

/-- **A new pair**, in a directory that is there. -/
lemma enter (h : Attended n past dir w pairs) (hn : n ≤ w.inodes) {request : LogRequest}
    (hr : request.Proper) {s s' : StreamWriter} {rs : List Record} {q : Path} {leaf : Bytes}
    (ho : StreamWriter.Opened host s s' w w' request.time_ns rs q leaf)
    (hname : s.name_ = request.channel) (hrs : ∀ r ∈ rs, r = request.record)
    (hone : rs.length ≤ 1) (hdir : w.tree.lookup dir = some .dir)
    (hplaced : (FilePair.ofOpened s w request.time_ns rs q leaf).Placed dir)
    (hs : (s.stream request.time_ns rs).Sound)
    (hsmall : s.record_size_ ≠ 0 → (s.stream request.time_ns rs).index.length < 2 ^ 32) :
    Attended n (past ++ [request]) dir w'
      (pairs ++ [FilePair.ofOpened s w request.time_ns rs q leaf]) := by
  have ha := FilePair.adds_ofOpened ho
  have hall : ∀ {P : FilePair → Prop}, (∀ p ∈ pairs, P p) →
      P (FilePair.ofOpened s w request.time_ns rs q leaf) →
        ∀ p ∈ pairs ++ [FilePair.ofOpened s w request.time_ns rs q leaf], P p := by
    intro P hold hnew p hp
    rcases List.mem_append.mp hp with hp | hp
    · exact hold p hp
    · rw [List.mem_singleton.mp hp]
      exact hnew
  refine ⟨?_, ?_, ?_, ?_, ?_, ?_, ?_, ?_, ?_, fun _ => ?_, fun hgone => ?_⟩
  · exact hall (fun p hp => (h.kept p hp).adds ha) (FilePair.kept_ofOpened ho)
  · refine List.pairwise_append.mpr ⟨h.apart, List.pairwise_singleton _ _, fun p hp g hg => ?_⟩
    rw [List.mem_singleton.mp hg]
    exact FilePair.apart_ofOpened (h.kept p hp)
  · exact hall h.sound hs
  · exact hall h.small hsmall
  · exact hall h.placed hplaced
  · exact hall h.recent ⟨hn, hn.trans (Nat.le_succ _)⟩
  · refine hall (h.later request).told fun r hmem => ⟨request,
      List.mem_append_right _ (List.mem_singleton_self _), hname.symm, (hrs r hmem).symm⟩
  · refine hall h.times fun r hmem => ?_
    rw [hrs r hmem]
    exact hr.time
  · refine hall h.sorted ?_
    match rs, hone with
    | [], _ => exact List.Pairwise.nil
    | [r], _ => exact List.pairwise_singleton _ _
  · exact hall (fun p hp => (h.linked hdir p hp).adds (h.kept p hp) ha)
      (FilePair.linked_ofOpened ho)
  · exact absurd (ha.lookup _ _ hdir) hgone

/-! ### What is found -/

lemma fits (h : Attended n past dir w pairs) {p : FilePair} (hp : p ∈ pairs) : p.stream.Fits :=
  (h.sound p hp).fits (h.placed p hp).short (h.placed p hp).nul (h.small p hp)

/-- A pair of the folder is found with its records. -/
lemma foundAt {day : ℕ} (h : Attended n past (root ++ [toDec day]) w pairs)
    (hdir : w.tree.lookup (root ++ [toDec day]) = some .dir) (hroot : root.Plain) {p : FilePair}
    (hp : p ∈ pairs) (overrun : Path → Bytes) (start end_ : UInt64) :
    foundAt root w overrun start end_ (toDec day) (p.leaf ++ dotIdx) = p.answer start end_ :=
  FilePair.foundAt_pair (h.kept p hp) (h.linked hdir p hp) (h.fits hp) (h.placed p hp) hroot
    (h.times p hp) (h.sorted p hp)

/-- Bytes of a pair are seen at its own paths, as long as there are any. -/
lemma content_append {day : ℕ} (h : Attended n past (root ++ [toDec day]) w pairs)
    (hs : w.Single n) {f : FilePair} (hf : f ∈ pairs) {r : Record}
    (e : w.Extends w' (StreamWriter.blocks f.stream f.index f.data r)) {q : Path} {i : ℕ}
    (hq : w.tree.lookup q = some (.file i)) (hindex : q ≠ f.indexPath)
    (hdata : q ≠ f.dataPath) : w'.content i = w.content i := by
  have hout : f.owns (i, 0) = false := by
    by_cases hdir : w.tree.lookup (root ++ [toDec day]) = some .dir
    · have hl := h.linked hdir f hf
      refine FilePair.owns_false_iff.mpr ⟨fun (heq : i = f.index) => hindex ?_,
        fun h0 (heq : i = f.data) => hdata ?_⟩
      · exact (hl.index q).mp (heq ▸ hq)
      · exact hs q f.dataPath i (heq ▸ (h.recent f hf).2) hq (heq ▸ hl.data h0)
    · exact h.gone hdir f hf q i hq
  have hnil : Tape.project i (StreamWriter.blocks f.stream f.index f.data r) = [] := by
    refine Tape.project_eq_nil fun x hx heq => ?_
    have hown := FilePair.owns_iff.mp (FilePair.owns_blocks hx)
    rw [heq] at hown
    exact Bool.noConfusion (hout.symm.trans (FilePair.owns_iff.mpr hown))
  rw [e.content, hnil, List.append_nil]

/-- Where the files of a pair of a day are. -/
lemma paths_of_placed {day : ℕ} {f : FilePair} (h : f.Placed (root ++ [toDec day])) :
    f.indexPath = root ++ [toDec day] ++ [f.leaf ++ dotIdx] ∧
      f.dataPath = root ++ [toDec day] ++ [f.leaf ++ dotData] := by
  rw [FilePair.indexPath, FilePair.dataPath, h.dir, StreamWriter.indexPath, StreamWriter.dataPath]
  exact ⟨rfl, rfl⟩

/-- **A record that is appended** is gained by its index file, if the directory is there. -/
lemma gains_append {day : ℕ} (hw : Settled root w) (hroot : root.Plain) (hs : w.Single n)
    (h : Attended n past (root ++ [toDec day]) w pairs) {past' : List LogRequest} {f : FilePair}
    (hf : f ∈ pairs) {r : Record}
    (e : w.Extends w' (StreamWriter.blocks f.stream f.index f.data r))
    (h' : Attended n past' (root ++ [toDec day]) w' (pairs.map (Books.bump f.index r)))
    (overrun : Path → Bytes) (start end_ : UInt64) :
    Gains root overrun start end_ w w' (toDec day) (f.leaf ++ dotIdx)
      (if w.tree.lookup (root ++ [toDec day]) = some .dir ∧
        StreamReader.within start end_ r.piece = true then [(f.stream.channel, r.piece)]
          else []) := by
  obtain ⟨hindexPath, hdataPath⟩ := paths_of_placed (h.placed f hf)
  -- what is seen elsewhere
  have hlook : ∀ q, q ≠ f.indexPath → q ≠ f.dataPath →
      (w'.asIs overrun).look q = (w.asIs overrun).look q := fun q hi hd =>
    look_congr (by rw [e.tree]) fun i hq => h.content_append hs hf e hq hi hd
  intro d name
  by_cases hne : d = toDec day ∧ name = f.leaf ++ dotIdx
  · rw [if_pos hne]
    obtain ⟨rfl, rfl⟩ := hne
    by_cases hdir : w.tree.lookup (root ++ [toDec day]) = some .dir
    · -- the pair itself has one more record
      have hpush : f.push r ∈ pairs.map (Books.bump f.index r) := by
        have hbump : Books.bump f.index r f = f.push r := if_pos rfl
        exact hbump ▸ List.mem_map_of_mem hf
      have hself := h'.foundAt (e.tree ▸ hdir) hroot hpush overrun start end_
      have hold := h.foundAt hdir hroot hf overrun start end_
      have hleaf : (f.push r).leaf = f.leaf := rfl
      rw [hleaf, FilePair.answer_push, ← hold] at hself
      simp only [hdir, true_and]
      exact hself
    · -- no directory, no entries
      have hnone : w.tree.lookup (root ++ [toDec day] ++ [f.leaf ++ dotIdx]) = none := by
        by_contra hsome
        obtain ⟨m, hm⟩ := Option.ne_none_iff_exists'.mp hsome
        exact hdir (hw.parent _ _ m hm)
      rw [if_neg fun hc => hdir hc.1, foundAt_of_none hnone, foundAt_of_none (by rwa [e.tree])]
      rfl
  · rw [if_neg hne, List.append_nil]
    exact foundAt_elsewhere hw (fun q hi hd => hlook q (hindexPath ▸ hi) (hdataPath ▸ hd)) hne

section NewPair

variable {f : FilePair} (ha : w.Adds w.inodes w')
  (hcases : ∀ p n, w'.tree.lookup p = some n →
    w.tree.lookup p = some n ∨ p = f.indexPath ∨ p = f.dataPath)

include ha hcases

/-- A new pair in a day directory keeps the root settled. -/
lemma settled_of_new {day : ℕ} (hw : Settled root w) (hroot : root.Plain)
    (hplaced : f.Placed (root ++ [toDec day]))
    (hdir : w.tree.lookup (root ++ [toDec day]) = some .dir) : Settled root w' := by
  obtain ⟨hplainIndex, hplainData⟩ := hplaced.plain hroot
  obtain ⟨hindexPath, hdataPath⟩ := paths_of_placed hplaced
  have hdirs : ∀ {p}, w.tree.lookup p = some .dir → w'.tree.lookup p = some .dir := fun hp =>
    ha.lookup _ _ hp
  refine ⟨hdirs hw.dir, fun d name m hm => ?_, fun d name m hm => ?_, fun d name i hi hext => ?_⟩
  · rcases hcases _ _ hm with hm | hm | hm
    · exact hw.plain d name m hm
    · exact hm ▸ hplainIndex
    · exact hm ▸ hplainData
  · rcases hcases _ _ hm with hm | hm | hm
    · exact hdirs (hw.parent d name m hm)
    · rw [hindexPath] at hm
      rw [(List.append_inj' hm rfl).1]
      exact hdirs hdir
    · rw [hdataPath] at hm
      rw [(List.append_inj' hm rfl).1]
      exact hdirs hdir
  · rcases hcases _ _ hi with hi | hi | hi
    · exact hw.index d name i hi hext
    · exact hi ▸ hplaced.index
    · rw [hdataPath] at hi
      obtain ⟨leaf', hleaf⟩ := exists_leaf hext
      rw [hleaf] at hi
      exact absurd (List.singleton_inj.mp (List.append_inj' hi rfl).2)
        (StreamWriter.append_dotIdx_ne _ _)

/-- What is seen elsewhere is as it was. -/
lemma look_of_new {p : Path} (hi : p ≠ f.indexPath) (hd : p ≠ f.dataPath) :
    (w'.asIs overrun).look p = (w.asIs overrun).look p := by
  refine look_congr ?_ fun i hp => ?_
  · cases hp : w.tree.lookup p with
    | some m => exact ha.lookup p m hp
    | none =>
        cases hp' : w'.tree.lookup p with
        | none => rfl
        | some m =>
            rcases hcases _ _ hp' with hold | hp' | hp'
            · rw [hp] at hold
              cases hold
            · exact absurd hp' hi
            · exact absurd hp' hd
  · obtain ⟨t, ht, hnew⟩ := ha.tape
    have hnil : Tape.project i t = [] := Tape.project_eq_nil fun x hx heq => by
      have := hnew x hx
      have := w.linked p i hp
      omega
    rw [World.content, ht, Tape.project_append, hnil, List.append_nil, World.content]

end NewPair

/-- **A new pair** is gained with what was written to it. -/
lemma gains_enter {day : ℕ} (hw : Settled root w) (hroot : root.Plain)
    {s s' : StreamWriter} {time_ns : UInt64} {rs : List Record} {q : Path} {leaf : Bytes}
    (ho : StreamWriter.Opened host s s' w w' time_ns rs q leaf)
    (h' : Attended n past (root ++ [toDec day]) w' pairs)
    (hmem : FilePair.ofOpened s w time_ns rs q leaf ∈ pairs)
    (hdir : w.tree.lookup (root ++ [toDec day]) = some .dir) :
    Settled root w' ∧ ∀ overrun start end_, Gains root overrun start end_ w w' (toDec day)
      (leaf ++ dotIdx) ((FilePair.ofOpened s w time_ns rs q leaf).answer start end_) := by
  have ha : w.Adds w.inodes w' := FilePair.adds_ofOpened ho
  have hcases : ∀ p n, w'.tree.lookup p = some n → w.tree.lookup p = some n ∨
      p = (FilePair.ofOpened s w time_ns rs q leaf).indexPath ∨
      p = (FilePair.ofOpened s w time_ns rs q leaf).dataPath := fun p n => ho.lookup_cases
  have hplaced := h'.placed _ hmem
  have hindexPath : StreamWriter.indexPath q leaf = root ++ [toDec day] ++ [leaf ++ dotIdx] :=
    (paths_of_placed hplaced).1
  refine ⟨settled_of_new ha hcases hw hroot hplaced hdir, fun overrun start end_ d name => ?_⟩
  by_cases hne : d = toDec day ∧ name = leaf ++ dotIdx
  · rw [if_pos hne]
    obtain ⟨rfl, rfl⟩ := hne
    have hnone : w.tree.lookup (root ++ [toDec day] ++ [leaf ++ dotIdx]) = none :=
      hindexPath ▸ ho.index_free
    rw [foundAt_of_none hnone, List.nil_append]
    exact h'.foundAt (ha.lookup _ _ hdir) hroot hmem overrun start end_
  · rw [if_neg hne, List.append_nil]
    refine foundAt_elsewhere hw (fun p hi hd => look_of_new ha hcases ?_ ?_) hne
    · rw [(paths_of_placed hplaced).1]
      exact hi
    · rw [(paths_of_placed hplaced).2]
      exact hd

end Attended

/-! ## One call -/

section Call

variable {n : ℕ} {past : List LogRequest} {pairs pairs' : List FilePair} {request : LogRequest}
  {f : Folder} {day : ℕ} {cal : Calendar}

/-- What a write enters into the answers: the record, under its day, when the write is reported, its
directory is there afterwards and its time is in the range. -/
def gain (start end_ : UInt64) (dir : Path) (request : LogRequest) (out : Outcome) (w' : World) :
    List (Bytes × DataPiece) :=
  if out.positive = true ∧ w'.tree.lookup dir = some .dir ∧
    request.within start end_ = true then
    [(request.channel, request.record.piece)]
  else []

/-- The index file of a new pair is short. -/
lemma small_ofOpened {s : StreamWriter} (hr : request.Proper) {out : Outcome}
    (hsize : out.positive = true → s.record_size_ ≠ 0 →
      request.data.length = s.record_size_.toNat) (hne : s.record_size_ ≠ 0) :
    (s.stream request.time_ns (if out.positive then [request.record] else [])).index.length <
      2 ^ 32 := by
  have hdata := hr.data
  have hsized : ∀ r ∈ (if out.positive then [request.record] else []),
      r.data.length = s.record_size_.toNat := by
    intro r hmem
    split_ifs at hmem with hout
    · rw [List.mem_singleton.mp hmem]
      exact hsize hout hne
    · cases hmem
  rw [Stream.length_index fun _ => hsized]
  have hcount : (s.stream request.time_ns
      (if out.positive then [request.record] else [])).records.length ≤ 1 := by
    change (if out.positive then [request.record] else []).length ≤ 1
    split_ifs <;> simp
  have hentry : (s.stream request.time_ns
      (if out.positive then [request.record] else [])).entrySize = 8 + s.record_size_.toNat := by
    simp only [StreamWriter.stream, Stream.entrySize, hne, if_false]
  rw [hentry]
  by_cases hout : out.positive = true
  · have hlen := hsize hout hne
    have := Nat.mul_le_mul_left (8 + s.record_size_.toNat) hcount
    simp only [sizeofLogFileHeader]
    omega
  · have hzero : (s.stream request.time_ns
        (if out.positive then [request.record] else [])).records.length = 0 := by
      change (if out.positive then [request.record] else []).length = 0
      rw [if_neg hout]
      rfl
    rw [hzero, Nat.mul_zero]
    decide

/-- A new pair is sound: its records have its size, and a header and one record fit the offsets. -/
lemma sound_ofOpened {s : StreamWriter} (hr : request.Proper) {out : Outcome}
    (hsize : out.positive = true → s.record_size_ ≠ 0 →
      request.data.length = s.record_size_.toNat) :
    (s.stream request.time_ns (if out.positive then [request.record] else [])).Sound := by
  have hdata := hr.data
  refine ⟨fun hne r hmem => ?_, fun h0 => ?_⟩
  · change r ∈ (if out.positive then [request.record] else []) at hmem
    split_ifs at hmem with hout
    · rw [List.mem_singleton.mp hmem]
      exact hsize hout hne
    · cases hmem
  · simp only [StreamWriter.stream, Stream.endOffset, sizeofLogFileHeader, UINT32_MAX]
    split_ifs
    · simp only [Stream.room, List.map_cons, List.map_nil, List.sum_cons, List.sum_nil,
        LogRequest.record]
      omega
    · simp

/-- What a new pair answers is what its request gained. -/
lemma answer_ofOpened {s : StreamWriter} {q dir : Path} {leaf : Bytes} {out : Outcome}
    (hname : s.name_ = request.channel) (hthere : w'.tree.lookup dir = some .dir) :
    (FilePair.ofOpened s w request.time_ns (if out.positive then [request.record] else [])
      q leaf).answer start end_ = gain start end_ dir request out w' := by
  have hwithin : StreamReader.within start end_ request.record.piece =
      request.within start end_ := rfl
  rw [gain, FilePair.answer, ← hname]
  simp only [FilePair.ofOpened, StreamWriter.stream, hthere, true_and]
  by_cases hout : out.positive = true
  · simp only [hout, if_true, List.map_singleton, List.filter_singleton, hwithin, true_and]
    cases request.within start end_ with
    | true => rfl
    | false => rfl
  · simp [hout]

/-- Nothing was appended. -/
lemma settled_of_extends_nil (hw : Settled root w) (e : w.Extends w' []) :
    Settled root w' ∧ ∀ overrun start end_ day name,
      foundAt root w' overrun start end_ day name =
        foundAt root w overrun start end_ day name := by
  have hlook : ∀ overrun q, (w'.asIs overrun).look q = (w.asIs overrun).look q :=
    fun overrun q => look_congr (by rw [e.tree]) fun i _ => by rw [e.content]; simp
  have hw' : Settled root w' := by
    obtain ⟨hdir, hplain, hparent, hindex⟩ := hw
    rw [← e.tree] at hdir hplain hparent hindex
    exact ⟨hdir, hplain, hparent, hindex⟩
  exact ⟨hw', fun overrun start end_ day name =>
    foundAt_congr hw (hlook overrun _) fun leaf _ => hlook overrun _⟩

/-- **A write to a channel of the active folder**: the folder stays attended, and one index file
gains the record. -/
lemma writeChannel_found (hn : host.NeverFails) (hroot : root.Plain) (hquiet : root.Quiet)
    (hw : Settled root w) (hs : w.Single n) (hnew : n ≤ w.inodes)
    (hf : f.folder_ = root ++ [toDec day]) (hstocked : f.Stocked f.folder_ pairs)
    (h : Attended n past f.folder_ w pairs) (hr : request.Proper)
    (hlater : ∀ old ∈ past, old.channel = request.channel → old.time_ns ≤ request.time_ns)
    (hfit : f.IndexFits request w) :
    ∃ pairs' x, (f.writeChannel host request w).2.1.Stocked f.folder_ pairs' ∧
      Attended n (past ++ [request]) f.folder_ (f.writeChannel host request w).2.2 pairs' ∧
      Settled root (f.writeChannel host request w).2.2 ∧
      ∀ overrun start end_, Gains root overrun start end_ w (f.writeChannel host request w).2.2
        (toDec day) x (gain start end_ f.folder_ request (f.writeChannel host request w).1
          (f.writeChannel host request w).2.2) := by
  obtain ⟨pairs', hwrote, hstocked'⟩ :=
    Folder.writeChannel_wrote_of_kept hn h.kept h.eq_of_index hstocked hr
  refine ⟨pairs', ?_⟩
  simp only [hstocked', true_and]
  clear hstocked'
  generalize (f.writeChannel host request w).2.2 = w' at hwrote ⊢
  generalize (f.writeChannel host request w).1 = out at hwrote ⊢
  cases hwrote with
  | refused hout e =>
      obtain ⟨hw', hsame⟩ := settled_of_extends_nil hw e
      refine ⟨[], (h.of_extends_nil e).later request, hw', fun overrun start end_ => ?_⟩
      have hgain : gain start end_ f.folder_ request out w' = [] :=
        if_neg fun hc => by simp [hout] at hc
      rw [hgain]
      exact gains_nil (hsame overrun start end_) _ _
  | @appended s p hout hlook hmem hdir hchannel hwrites e hoffset hsize =>
      have hsound : (p.stream.push request.record).Sound :=
        (h.sound p hmem).push hsize fun h0 => by
          have := hoffset h0
          simp only [LogRequest.record]
          omega
      have hsmall : p.stream.record_size ≠ 0 →
          (p.stream.push request.record).index.length < 2 ^ 32 := by
        intro hne
        have hlive : StreamWriter.live s.index_ = some ⟨p.index, true⟩ := by
          rw [hwrites.index]
          rfl
        have hlen := hfit s _ hlook hlive (by rw [hwrites.size]; exact hne)
        rw [(h.kept p hmem).content_index] at hlen
        have hblock : (p.stream.indexBlock (request.record, p.stream.endOffset)).length =
            8 + request.data.length := by
          rw [Stream.length_indexBlock fun _ => hsize hne, Stream.entrySize, if_neg hne, hsize hne]
        rw [Stream.index_push, List.length_append, hblock]
        omega
      have h' := h.append hr hmem hchannel hlater e hsound hsmall
      refine ⟨p.leaf ++ dotIdx, h', ?_, fun overrun start end_ => ?_⟩
      · obtain ⟨h1, h2, h3, h4⟩ := hw
        rw [← e.tree] at h1 h2 h3 h4
        exact ⟨h1, h2, h3, h4⟩
      · rw [hf] at h h'
        have hgains := h.gains_append hw hroot hs hmem e h' overrun start end_
        have hwithin : StreamReader.within start end_ request.record.piece =
            request.within start end_ := rfl
        rw [hchannel, hwithin] at hgains
        simp only [gain, hout, hf, e.tree, true_and]
        exact hgains
  | @opened s s' q leaf hname hfolder ho hsize =>
      have hplaced := FilePair.placed_ofOpened ho (hf ▸ hquiet.day day) hfolder hr hname
      have hthere : w.tree.lookup f.folder_ = some .dir := hfolder ▸ ho.folder_dir
      have hthere' : w'.tree.lookup f.folder_ = some .dir :=
        (FilePair.adds_ofOpened ho).lookup _ _ hthere
      have h' := h.enter hnew hr ho hname
        (fun r hmem => by split_ifs at hmem <;> simp_all) (by split_ifs <;> simp) hthere hplaced
        (sound_ofOpened hr hsize) (small_ofOpened hr hsize)
      have hmem : FilePair.ofOpened s w request.time_ns
          (if out.positive then [request.record] else []) q leaf ∈
          pairs ++ [FilePair.ofOpened s w request.time_ns
            (if out.positive then [request.record] else []) q leaf] :=
        List.mem_append_right _ (List.mem_singleton_self _)
      obtain ⟨hw', hgains⟩ := Attended.gains_enter hw hroot ho (hf ▸ h') hmem (hf ▸ hthere)
      refine ⟨leaf ++ dotIdx, h', hw', fun overrun start end_ => ?_⟩
      have hanswer : (FilePair.ofOpened s w request.time_ns
          (if out.positive then [request.record] else []) q leaf).answer start end_ =
            gain start end_ f.folder_ request out w' := answer_ofOpened hname hthere'
      exact hanswer ▸ hgains overrun start end_

end Call

/-- The day of a record in the range is in the range of days. -/
lemma dayWithin_of_within (hmono : ∀ s t, s ≤ t → host.cal.Time2YYYYMMDD s ≤
    host.cal.Time2YYYYMMDD t) {request : LogRequest} (h : request.within start end_ = true) :
    dayWithin host.cal start end_ (toDec (host.cal.Time2YYYYMMDD request.time_ns)) = true := by
  obtain ⟨hstart, hend⟩ := of_decide_eq_true h
  have hbound := (host.cal.day_bounds request.time_ns).2
  rw [dayWithin, stoul_toDec (by omega), Option.any_some]
  exact decide_eq_true ⟨hmono _ _ hstart, hmono _ _ hend⟩

/-- The state of a session that has handled the requests of the past: inodes from `n` on are its
own. -/
structure Retains (root : Path) (n : ℕ) (past : List LogRequest) (b : FilesystemStorageBackend)
    (w : World) : Prop where
  homed : b.Homed root
  settled : Settled root w
  single : w.Single n
  recent : n ≤ w.inodes
  active : b.folder_.yyyymmdd_ ≠ 0 → ∃ pairs, b.folder_.Stocked b.folder_.folder_ pairs ∧
    Attended n past b.folder_.folder_ w pairs

/-- At the start every file is an old one. -/
lemma retains_make (hw : Settled root w) :
    Retains root w.inodes [] (FilesystemStorageBackend.make root) w where
  homed := homed_make root
  settled := hw
  single p _ i hi hp _ := absurd (w.linked p i hp) (not_lt.mpr hi)
  recent := le_rfl
  active h := absurd rfl h

/-- A new day directory. -/
lemma settled_of_adds (hw : Settled root w) (ha : w.Adds w.inodes w₁)
    (hinodes : w₁.inodes = w.inodes) {day : Bytes}
    (hdirs : ∀ q, w₁.tree.lookup q = some .dir → w.tree.lookup q = some .dir ∨
      q <+: root ++ [day]) :
    Settled root w₁ ∧ ∀ overrun start end_ d name,
      foundAt root w₁ overrun start end_ d name = foundAt root w overrun start end_ d name := by
  have hold : ∀ d name, w₁.tree.lookup (root ++ [d] ++ [name]) =
      w.tree.lookup (root ++ [d] ++ [name]) := by
    intro d name
    cases hn : w.tree.lookup (root ++ [d] ++ [name]) with
    | some m => exact ha.lookup _ m hn
    | none =>
        cases hn' : w₁.tree.lookup (root ++ [d] ++ [name]) with
        | none => rfl
        | some m =>
            cases m with
            | dir =>
                rcases hdirs _ hn' with h | h
                · rw [hn] at h
                  cases h
                · have hlen := h.length_le
                  simp at hlen
            | file i =>
                have hlt := w₁.linked _ i hn'
                rw [ha.files _ i (by omega) hn'] at hn
                cases hn
  have hw₁ : Settled root w₁ := by
    refine ⟨ha.lookup _ _ hw.dir, fun d name m hm => ?_, fun d name m hm => ?_,
      fun d name i hi => ?_⟩
    · rw [hold] at hm
      exact hw.plain d name m hm
    · rw [hold] at hm
      exact ha.lookup _ _ (hw.parent d name m hm)
    · rw [hold] at hi
      exact hw.index d name i hi
  refine ⟨hw₁, fun overrun start end_ d name => ?_⟩
  have hlook : ∀ d name, (w₁.asIs overrun).look (root ++ [d] ++ [name]) =
      (w.asIs overrun).look (root ++ [d] ++ [name]) := by
    intro d name
    refine look_congr (hold d name) fun i hi => ?_
    obtain ⟨t, ht, hnew⟩ := ha.tape
    have hlt := w.linked _ i hi
    have hnil : Tape.project i t = [] := Tape.project_eq_nil fun x hx heq => by
      have := hnew x hx
      omega
    rw [World.content, ht, Tape.project_append, hnil, List.append_nil, World.content]
  exact foundAt_congr hw (hlook d name) fun leaf _ => hlook d (leaf ++ dotData)

section Call

variable {n : ℕ} {past : List LogRequest} {request : LogRequest}

/-- **A write to the backend**: one index file of the day gains the record, if it is reported. -/
lemma backend_write_found (hn : host.NeverFails) (hroot : root.Plain) (hquiet : root.Quiet)
    (h : Retains root n past b w) (hr : request.Proper)
    (hlater : ∀ old ∈ past, old.channel = request.channel → old.time_ns ≤ request.time_ns)
    (hfit : b.folder_.sameDay host request.time_ns = true → b.folder_.IndexFits request w) :
    Retains root n (past ++ [request]) (b.write host request w).2.1 (b.write host request w).2.2 ∧
      ∃ x, ∀ overrun start end_, Gains root overrun start end_ w (b.write host request w).2.2
        (toDec (host.cal.Time2YYYYMMDD request.time_ns)) x
        (gain start end_ (dayDir host root request.time_ns) request (b.write host request w).1
          (b.write host request w).2.2) := by
  have hhomed := h.homed.write host request w
  have hreaches := backend_write_reaches host (· = dayDir host root request.time_ns) b request w
    (by rw [h.homed.path, dayDir])
  have hsingle := h.single.reaches hreaches
  have hrecent := h.recent.trans hreaches.grows.inodes
  obtain ⟨f, w₁, hfolder, -, hfrom, hto⟩ := backend_write_folder host h.homed request w
  -- the folder the request goes to, before it is written to
  obtain ⟨pairs, hw₁, hsame, hs₁, hn₁, hstocked, hattended⟩ :
    ∃ pairs, Settled root w₁ ∧
      (∀ overrun start end_ d name, foundAt root w₁ overrun start end_ d name =
        foundAt root w overrun start end_ d name) ∧ w₁.Single n ∧ n ≤ w₁.inodes ∧
      f.Stocked f.folder_ pairs ∧ Attended n past f.folder_ w₁ pairs := by
    rcases hfrom with ⟨-, rfl, hday, rfl⟩ | ⟨-, hfiles, hadds, hinodes⟩
    · obtain ⟨pairs, hstocked, hattended⟩ := h.active hday
      exact ⟨pairs, h.settled, fun _ _ _ _ _ => rfl, h.single, h.recent, hstocked, hattended⟩
    · have hgrows : w₁.Grows (b.write host request w).2.2 := by
        rcases hto with heq | ⟨-, -, heq⟩
        · rw [heq]
          exact (f.writeChannel_reaches host (fun _ => True) request w₁).grows
        · rw [heq]
          exact World.Grows.refl w₁
      have hdirs : ∀ q, w₁.tree.lookup q = some .dir → w.tree.lookup q = some .dir ∨
          q <+: root ++ [toDec (host.cal.Time2YYYYMMDD request.time_ns)] := by
        intro q hq
        rcases hreaches.dirs (hgrows.lookup q _ hq) with hold | ⟨p, hp, hpre⟩
        · exact Or.inl hold
        · rw [hp] at hpre
          exact Or.inr hpre
      obtain ⟨hw₁, hsame⟩ := settled_of_adds h.settled hadds hinodes hdirs
      refine ⟨[], hw₁, hsame, fun p q i hi hp hq => ?_, hinodes ▸ h.recent,
        ⟨rfl, fun channel s hlook => by simp [hfiles] at hlook⟩, .nil _ _ _ _⟩
      have hold : ∀ p, w₁.tree.lookup p = some (.file i) → w.tree.lookup p = some (.file i) :=
        fun p hp => hadds.files p i (hinodes ▸ w₁.linked p i hp) hp
      exact h.single p q i hi (hold p hp) (hold q hq)
  rcases hto with heq | ⟨-, hno, heq⟩
  · rw [heq] at hhomed hsingle hrecent ⊢
    have hfits : f.IndexFits request w₁ := by
      rcases hfrom with ⟨hsameDay, rfl, -, rfl⟩ | ⟨-, hfiles, -⟩
      · exact hfit hsameDay
      · intro s file hlook
        simp [hfiles] at hlook
    obtain ⟨pairs', x, hstocked', hattended', hsettled', hgains⟩ :=
      writeChannel_found hn hroot hquiet hw₁ hs₁ hn₁ hfolder hstocked hattended
        hr hlater hfits
    refine ⟨⟨hhomed, hsettled', hsingle, hrecent, fun _ => ⟨pairs', ?_, ?_⟩⟩, x,
      fun overrun start end_ d name => ?_⟩
    · rw [Folder.folder_writeChannel]
      exact hstocked'
    · rw [Folder.folder_writeChannel]
      exact hattended'
    · rw [hgains, hsame, hfolder]
  · have hgain : ∀ start end_, gain start end_ (dayDir host root request.time_ns) request
        (b.write host request w).1 (b.write host request w).2.2 = [] := fun start end_ =>
      if_neg fun hc => by simp [hno] at hc
    simp only [hgain]
    rw [heq] at hhomed hsingle hrecent ⊢
    exact ⟨⟨hhomed, hw₁, hsingle, hrecent, fun _ =>
      ⟨pairs, hstocked, hattended.later request⟩⟩, [], fun overrun start end_ =>
        gains_nil (hsame overrun start end_) _ _⟩

/-- Deleted directories. -/
lemma Retains.prunes {names : List Bytes} (h : Retains root n past b w)
    (hp : Prunes root names w w') : Retains root n past b w' where
  homed := h.homed
  settled := hp.settled h.settled
  single := h.single.prunes hp
  recent := hp.inodes.symm ▸ h.recent
  active hday := by
    obtain ⟨pairs, hstocked, hattended⟩ := h.active hday
    refine ⟨pairs, hstocked, ?_⟩
    rw [h.homed.folder hday] at hattended ⊢
    exact hattended.prunes h.single hp

end Call

/-! ## The storage -/

/-- The world that a loop which started in `w` leaves. -/
def Storage.Room.world (w : World) : Storage.Room → World
  | .done _ w => w
  | .full _ w => w
  | .thrown _ w => w
  | .hangs => w

/-- The world after the loop of `Storage::write`. -/
def Storage.cleared (st : Storage) (request : LogRequest) (w : World) : World :=
  (Storage.makeRoom st.backend_ (maxRecordSize request.data.length)
    (w.tree.entries.length + 1) st.available_bytes_ w).world w

/-- What a call that returns `out` enters: the record, under its day, when the call reports it, does
not append it to files of a directory that is gone, and the time is in the range.  `w₁` is the
world after the loop. -/
def LogRequest.entered (request : LogRequest) (host : Host) (start end_ : UInt64)
    (b : FilesystemStorageBackend) (w₁ : World) (out : Outcome) :
    Option (Bytes × Bytes × DataPiece) :=
  if out.positive = true ∧ ¬ b.AppendsGone host request w₁ ∧
    request.within start end_ = true then
    some (toDec (host.cal.Time2YYYYMMDD request.time_ns), request.channel, request.record.piece)
  else none

/-- What a call of `Storage::write` does to the archive: the days that the loop deletes are dropped,
and then the record is entered. -/
def Storage.turn (host : Host) (start end_ : UInt64) (x : Storage × World) (request : LogRequest) :
    Archive.Turn Bytes (Bytes × DataPiece) where
  dropped := x.1.backend_.evicted x.2 (x.1.cleared request x.2)
  entered := request.entered host start end_ x.1.backend_ (x.1.cleared request x.2)
    (x.1.write host request x.2).1

/-- `storage_write_cases`, with a name for the world between the loop and the write. -/
lemma storage_write_cleared (host : Host) (st : Storage) (request : LogRequest) (w : World) :
    (∃ names available, Evicts st.backend_ (maxRecordSize request.data.length)
      st.available_bytes_ w names available (st.cleared request w)) ∧
    (((st.write host request w).2.1.backend_ = st.backend_ ∧
        (st.write host request w).2.2 = st.cleared request w ∧
        (st.write host request w).1.positive = false) ∨
      ∃ available, st.write host request w =
        st.writeToBackend host available request (st.cleared request w)) := by
  obtain ⟨hdone, hfull, hthrown⟩ := makeRoom_evicts st.backend_
    (maxRecordSize request.data.length) (w.tree.entries.length + 1) st.available_bytes_ w
  rw [Storage.write, Storage.cleared]
  cases hroom : Storage.makeRoom st.backend_ (maxRecordSize request.data.length)
      (w.tree.entries.length + 1) st.available_bytes_ w with
  | done available w₁ =>
      obtain ⟨-, names, he⟩ := hdone hroom
      exact ⟨⟨names, available, he⟩, Or.inr ⟨available, rfl⟩⟩
  | full available w₁ =>
      obtain ⟨-, names, he⟩ := hfull hroom
      exact ⟨⟨names, available, he⟩, Or.inl ⟨rfl, rfl, rfl⟩⟩
  | thrown available w₁ =>
      obtain ⟨names, he⟩ := hthrown hroom
      exact ⟨⟨names, available, he⟩, Or.inl ⟨rfl, rfl, rfl⟩⟩
  | hangs => exact ⟨⟨[], _, .stop _ _⟩, Or.inl ⟨rfl, rfl, rfl⟩⟩

variable {n : ℕ} {past : List LogRequest} {request : LogRequest} {st : Storage}

/-- What the record adds is what the call enters. -/
lemma gain_eq_entry (hb : b.Homed root) {t : Archive.Turn Bytes (Bytes × DataPiece)}
    (ht : t.entered = request.entered host start end_ b w (b.write host request w).1)
    (day : Bytes) : t.entry day =
      if day = toDec (host.cal.Time2YYYYMMDD request.time_ns) then
        gain start end_ (dayDir host root request.time_ns) request (b.write host request w).1
          (b.write host request w).2.2 else [] := by
  have hiff : ((b.write host request w).1.positive = true ∧
        (b.write host request w).2.2.tree.lookup (dayDir host root request.time_ns) = some .dir ∧
        request.within start end_ = true) ↔
      (b.write host request w).1.positive = true ∧ ¬ b.AppendsGone host request w ∧
        request.within start end_ = true :=
    and_congr_right fun hpos => and_congr_left fun _ => backend_write_there hb hpos
  by_cases hin : (b.write host request w).1.positive = true ∧ ¬ b.AppendsGone host request w ∧
      request.within start end_ = true
  · rw [LogRequest.entered, if_pos hin] at ht
    rw [Archive.Turn.entry_of_some ht, gain, if_pos (hiff.mpr hin)]
    exact if_congr eq_comm rfl rfl
  · rw [LogRequest.entered, if_neg hin] at ht
    rw [Archive.Turn.entry_of_none ht, gain, if_neg fun hc => hin (hiff.mp hc), ite_self]

/-- **A call of `Storage::write` is one turn of the archive.** -/
lemma storage_write_turn (hn : host.NeverFails) (hroot : root.Plain) (hquiet : root.Quiet)
    (hmono : ∀ s t, s ≤ t → host.cal.Time2YYYYMMDD s ≤ host.cal.Time2YYYYMMDD t)
    (h : Retains root n past st.backend_ w) (hr : request.Proper)
    (hlater : ∀ old ∈ past, old.channel = request.channel → old.time_ns ≤ request.time_ns)
    (hfit : st.IndexFits host request w) {log : Archive Bytes (Bytes × DataPiece)}
    (hlog : Shows root host.cal overrun start end_ w log) :
    Retains root n (past ++ [request]) (st.write host request w).2.1.backend_
        (st.write host request w).2.2 ∧
      Shows root host.cal overrun start end_ (st.write host request w).2.2
        ((Storage.turn host start end_ (st, w) request).apply log) := by
  obtain ⟨⟨names, available, he⟩, hcases⟩ := storage_write_cleared host st request w
  obtain ⟨w₁, hw₁⟩ : ∃ w₁, w₁ = st.cleared request w := ⟨_, rfl⟩
  rw [← hw₁] at he hcases
  have hprunes : Prunes root names w w₁ := h.homed.path ▸ he.prunes
  have h₁ := h.prunes hprunes
  -- what the loop leaves
  have hlog₁ : Shows root host.cal overrun start end_ w₁
      (log.without (st.backend_.evicted w w₁)) := by
    have hsettled := h.settled
    rw [← h.homed.path] at hsettled hlog ⊢
    exact he.prunes.shows hsettled hlog
  have hdropped : (Storage.turn host start end_ (st, w) request).dropped =
      st.backend_.evicted w w₁ := by rw [Storage.turn, ← hw₁]
  have hentered : (Storage.turn host start end_ (st, w) request).entered = request.entered host
      start end_ st.backend_ w₁ (st.write host request w).1 := by rw [Storage.turn, ← hw₁]
  rcases hcases with ⟨hback, hworld, hno⟩ | ⟨available', heq⟩
  · refine ⟨?_, ?_⟩
    · rw [hback, hworld]
      exact { h₁ with
        active := fun hday => by
          obtain ⟨pairs, hstocked, hattended⟩ := h₁.active hday
          exact ⟨pairs, hstocked, hattended.later request⟩ }
    · have hnone : request.entered host start end_ st.backend_ w₁ (st.write host request w).1 =
          none := if_neg fun hc => by simp [hno] at hc
      rw [Archive.Turn.apply_of_none (hentered.trans hnone), hdropped, hworld]
      exact hlog₁
  · have hfit₁ : st.backend_.folder_.sameDay host request.time_ns = true →
        st.backend_.folder_.IndexFits request w₁ := fun hsame s file hlook hlive hne => by
      have := hfit hsame s file hlook hlive hne
      rwa [World.content, ← hprunes.tape] at this
    obtain ⟨hretains, x, hgains⟩ := backend_write_found hn hroot hquiet h₁ hr hlater hfit₁
    have hout : (st.write host request w).1 = (st.backend_.write host request w₁).1 := by
      rw [heq, outcome_writeToBackend]
    have hworld : (st.write host request w).2.2 = (st.backend_.write host request w₁).2.2 := by
      rw [heq, world_writeToBackend]
    have happly : (Storage.turn host start end_ (st, w) request).apply log = fun day =>
        log.without (st.backend_.evicted w w₁) day ++
          if day = toDec (host.cal.Time2YYYYMMDD request.time_ns) then
            gain start end_ (dayDir host root request.time_ns) request
              (st.backend_.write host request w₁).1 (st.backend_.write host request w₁).2.2
          else [] := by
      funext day
      have hcall : (Storage.turn host start end_ (st, w) request).entered = request.entered host
          start end_ st.backend_ w₁ (st.backend_.write host request w₁).1 := by
            rw [hentered, hout]
      rw [Archive.Turn.apply, hdropped, gain_eq_entry h₁.homed hcall]
    refine ⟨?_, ?_⟩
    · rw [hworld, heq, backend_writeToBackend]
      exact hretains
    · rw [happly, hworld]
      refine hlog₁.gains h₁.settled hretains.settled (hgains overrun start end_) fun hne => ?_
      refine dayWithin_of_within hmono ?_
      by_contra hno
      exact hne (if_neg fun hc => hno hc.2.2)

/-- **The storage is an archive**, whatever archive is shown at first. -/
lemma storage_shows (hn : host.NeverFails) (hplain : root.Plain)
    (hidx : find dotIdx root.string = none)
    (hmono : ∀ s t, s ≤ t → host.cal.Time2YYYYMMDD s ≤ host.cal.Time2YYYYMMDD t)
    {max_size : ℤ} {w₀ w₁ : World} {st₀ : Storage} (hw : Settled root w₀)
    (hmake : Storage.make root max_size w₀ = some (st₀, w₁)) {requests : List LogRequest}
    (hproper : ∀ r ∈ requests, r.Proper)
    (hsorted : requests.Pairwise fun a b => a.channel = b.channel → a.time_ns ≤ b.time_ns)
    (hfit : Machine.Throughout (Storage.writeStep host) (fun y r => y.1.IndexFits host r y.2)
      (st₀, w₁) requests) {x : Storage × World}
    (hrun : Machine.run (Storage.writeStep host) (st₀, w₁) requests = some x)
    {log : Archive Bytes (Bytes × DataPiece)}
    (hlog : Shows root host.cal overrun start end_ w₀ log) :
    Settled root (x.1.backend_.destroy host x.2) ∧
      Shows root host.cal overrun start end_ (x.1.backend_.destroy host x.2)
        (Archive.replay log
          (⟨(FilesystemStorageBackend.make root).evicted w₀ w₁, none⟩ ::
            Archive.turns (Storage.writeStep host) (Storage.turn host start end_) (st₀, w₁)
              requests)) := by
  have hquiet : root.Quiet := ⟨fun c hc => ⟨(hplain c hc).1, (hplain c hc).2.1⟩, hidx⟩
  obtain ⟨names, hpruned⟩ := make_prunes hmake
  have hstart : Retains root w₁.inodes [] st₀.backend_ w₁ := by
    rw [(backend_make hmake).2]
    exact retains_make (hpruned.settled hw)
  have hstep : ∀ past r (y y' : Storage × World) log, past ++ [r] <+: requests →
      Retains root w₁.inodes past y.1.backend_ y.2 →
      Shows root host.cal overrun start end_ y.2 log → y.1.IndexFits host r y.2 →
        Storage.writeStep host y r = some y' →
          Retains root w₁.inodes (past ++ [r]) y'.1.backend_ y'.2 ∧
            Shows root host.cal overrun start end_ y'.2
              ((Storage.turn host start end_ y r).apply log) := by
    intro past r y y' log hprefix hy hlog hfits hone
    have heq : (y.1.write host r y.2).2 = y' := Option.some.inj hone
    have hmem : r ∈ requests := hprefix.subset (List.mem_append_right _ List.mem_cons_self)
    have hlater := (List.pairwise_append.mp (hsorted.sublist hprefix.sublist)).2.2
    rw [← heq]
    exact storage_write_turn hn hplain hquiet hmono hy (hproper r hmem)
      (fun old hold => hlater old hold r List.mem_cons_self) hfits hlog
  -- the constructor
  have hfirst : Shows root host.cal overrun start end_ w₁
      (Archive.Turn.apply ⟨(FilesystemStorageBackend.make root).evicted w₀ w₁, none⟩
        log) := by
    have hleft :=
      (show Prunes (FilesystemStorageBackend.make root).folder_path_ names w₀ w₁ from
        hpruned).shows hw hlog
    rw [Archive.Turn.apply_of_none rfl]
    exact hleft
  obtain ⟨hend, hshows⟩ := Archive.replay_of_run
    (fun past (y : Storage × World) => Retains root w₁.inodes past y.1.backend_ y.2)
    (fun y => Shows root host.cal overrun start end_ y.2) hstep hstart hfirst hfit hrun
  obtain ⟨hsettled, hkept⟩ :=
    settled_of_extends_nil hend.settled (x.1.backend_.folder_.close_extends host x.2)
  exact ⟨hsettled, hshows.congr hend.settled hsettled (hkept overrun start end_)⟩

/-- **The storage is an archive.**  After any requests the index files under the root show the
replay of what the calls did: the constructor and the loops of `write` drop days, and each call that
reports its record, unless it appends to files of a directory that is gone, enters it.  Of each day
a client finds the records that the replay leaves, each as often as it was entered, and in each
index file they are in the order of the calls.  Whatever was below the root before stays as readable
as it was. -/
theorem storage_is_archive (hn : host.NeverFails) (hplain : root.Plain)
    (hidx : find dotIdx root.string = none)
    (hmono : ∀ s t, s ≤ t → host.cal.Time2YYYYMMDD s ≤ host.cal.Time2YYYYMMDD t)
    {max_size : ℤ} {w₀ w₁ : World} {st₀ : Storage} (hw : Settled root w₀)
    (hmake : Storage.make root max_size w₀ = some (st₀, w₁)) {requests : List LogRequest}
    (hproper : ∀ r ∈ requests, r.Proper)
    (hsorted : requests.Pairwise fun a b => a.channel = b.channel → a.time_ns ≤ b.time_ns)
    (hfit : Machine.Throughout (Storage.writeStep host) (fun y r => y.1.IndexFits host r y.2)
      (st₀, w₁) requests) {x : Storage × World}
    (hrun : Machine.run (Storage.writeStep host) (st₀, w₁) requests = some x)
    (overrun : Path → Bytes) (start end_ : UInt64) :
    Settled root (x.1.backend_.destroy host x.2) ∧
      Shows root host.cal overrun start end_ (x.1.backend_.destroy host x.2)
        (Archive.replay (foundIn root host.cal (w₀.asIs overrun) start end_)
          (⟨(FilesystemStorageBackend.make root).evicted w₀ w₁, none⟩ ::
            Archive.turns (Storage.writeStep host) (Storage.turn host start end_) (st₀, w₁)
              requests)) :=
  storage_shows hn hplain hidx hmono hw hmake hproper hsorted hfit hrun
    (shows_self hw host.cal overrun start end_)

/-! ## Two days and room for one -/

instance (request : LogRequest) : Decidable request.Proper :=
  decidable_of_iff (request.time_ns ≠ 0 ∧ request.data.length < 2 ^ 30 ∧
      request.channel.length ≤ 31 ∧ (0 : UInt8) ∉ request.channel ∧
        (47 : UInt8) ∉ request.channel ∧
      (92 : UInt8) ∉ request.channel ∧ find dotIdx request.channel = none)
    ⟨fun ⟨h1, h2, h3, h4, h5, h6, h7⟩ => ⟨h1, h2, h3, h4, h5, h6, h7⟩,
      fun h => ⟨h.time, h.data, h.short, h.nul, h.slash, h.backslash, h.idx⟩⟩

instance (f : Folder) (request : LogRequest) (w : World) : Decidable (f.IndexFits request w) :=
  decidable_of_iff
    (∀ s ∈ f.files_.lookup request.channel, ∀ file ∈ StreamWriter.live s.index_,
      s.record_size_ ≠ 0 → (w.content file.inode).length + 8 + request.data.length < 2 ^ 32)
    ⟨fun h s file hs hfile => h s hs file hfile, fun h s hs file hfile => h s file hs hfile⟩

instance (host : Host) (st : Storage) (request : LogRequest) (w : World) :
    Decidable (st.IndexFits host request w) :=
  inferInstanceAs (Decidable (_ → _))

/-- There is nothing in an empty root. -/
lemma settled_of_empty (h : EmptyRoot root w) : Settled root w := by
  have hnone : ∀ day name, w.tree.lookup (root ++ [day] ++ [name]) = none := by
    intro day name
    refine h.empty _ ⟨[day, name], by simp⟩ fun heq => ?_
    have hlength := congrArg List.length heq
    simp at hlength
  refine ⟨h.dir, fun day name n hn => ?_, fun day name n hn => ?_, fun day name i hi => ?_⟩
  · rw [hnone] at hn
    cases hn
  · rw [hnone] at hn
    cases hn
  · rw [hnone] at hi
    cases hi

lemma january_mono (s t : UInt64) (h : s ≤ t) :
    Host.january.cal.Time2YYYYMMDD s ≤ Host.january.cal.Time2YYYYMMDD t := by
  have h' := UInt64.le_iff_toNat_le.mp h
  simp only [Calendar.Time2YYYYMMDD, Host.january]
  omega

/-- The second day takes the place of the first. -/
theorem storage_is_archive_second :
    let requests := dayRequests.drop 1
    ∃ st₀ x, Storage.make [ascii "r"] 130 (.bare [ascii "r"]) =
      some (st₀, .bare [ascii "r"]) ∧
      Machine.run (Storage.writeStep .january) (st₀, .bare [ascii "r"]) requests = some x ∧
      let left := foundIn [ascii "r"] Host.january.cal ((x.1.backend_.destroy .january x.2).asIs
        fun _ => []) 1704067200000000000 1704200000000000000
      left (ascii "20240101") = [] ∧
        left (ascii "20240102") = [(ascii "a", ⟨1704153600000000000, [], 0⟩)] := by
  intro requests
  obtain ⟨hplain, hidx⟩ : Path.Plain [ascii "r"] ∧
    find dotIdx (Path.string [ascii "r"]) = none := by
    decide +kernel
  obtain ⟨st₀, hmake⟩ : ∃ st, Storage.make [ascii "r"] ((130 : ℕ) : ℤ)
    (.bare [ascii "r"]) =
      some (st, .bare [ascii "r"]) := ⟨_, make_of_empty emptyRoot_bare (by norm_num)⟩
  have hfacts : ∀ y ∈ Storage.make [ascii "r"] 130 (.bare [ascii "r"]),
      Machine.Throughout (Storage.writeStep .january) (fun y r => y.1.IndexFits .january r y.2) y
        requests ∧
      let left := Archive.replay (foundIn [ascii "r"] Host.january.cal
          ((World.bare [ascii "r"]).asIs fun _ => []) 1704067200000000000 1704200000000000000)
        (⟨(FilesystemStorageBackend.make [ascii "r"]).evicted (.bare [ascii "r"]) y.2, none⟩ ::
          Archive.turns (Storage.writeStep .january)
            (Storage.turn .january 1704067200000000000 1704200000000000000) y requests)
      left (ascii "20240101") = [] ∧
        left (ascii "20240102") = [(ascii "a", ⟨1704153600000000000, [], 0⟩)] := by
    decide +kernel
  obtain ⟨hfit, hfirst, hsecond⟩ := hfacts _ hmake
  obtain ⟨x, hrun⟩ : ∃ x, Machine.run (Storage.writeStep .january) (st₀, .bare [ascii "r"])
      requests = some x := ⟨_, rfl⟩
  obtain ⟨-, hshows⟩ := storage_is_archive Host.neverFails_january hplain hidx january_mono
    (settled_of_empty emptyRoot_bare) hmake (by decide +kernel) (by decide +kernel) hfit hrun
    (fun _ => []) 1704067200000000000 1704200000000000000
  have hleft := hshows.all
  refine ⟨st₀, x, hmake, hrun, List.Perm.eq_nil ?_, List.perm_singleton.mp ?_⟩
  · rw [← hfirst]
    exact hleft _
  · rw [← hsecond]
    exact hleft _

end Tracebox
