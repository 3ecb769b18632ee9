import Tracebox.Storage.Accounting
import Tracebox.Storage.Shelves

/-!
# The catalogue of a storage root

A backend that nothing is deleted from only ever adds: day directories, pairs of files in them, and
records at the end of a pair.  So what is below the root can be listed at any time.

* `FilesystemStorageBackend.run` — a sequence of calls, with the requests that were accepted.
* `Catalogue` — **every accepted request stands in one pair, which belongs to its channel and its
  day**, in the order of the calls, and no other files are below the root.
* `Catalogue.wrote` — one write, `run_catalogue` — a run from an empty root, and the destruction
  of the backend after it.
-/

namespace Tracebox

open Bytes FilesystemStorageBackend

/-- The calls of `write` one after the other, with the requests that were accepted: those whose call
returned a positive value. -/
def FilesystemStorageBackend.run (host : Host) (b : FilesystemStorageBackend) :
    List LogRequest → World → List LogRequest × FilesystemStorageBackend × World
  | [], w => ([], b, w)
  | request :: requests, w =>
      let o := b.write host request w
      let rest := run host o.2.1 requests o.2.2
      ((if o.1.positive then [request] else []) ++ rest.1, rest.2)

/-! ## New pairs -/

namespace StreamWriter

variable {host : Host} {s s' : StreamWriter} {w w' : World} {time_ns : UInt64}
  {records : List Record} {q : Path} {leaf : Bytes}

/-- Files can only be opened in a directory that is there. -/
lemma Opened.folder_dir (h : Opened host s s' w w' time_ns records q leaf) :
    w.tree.lookup s.folder_ = some .dir := by
  obtain ⟨file_name, -, hres⟩ := h.place
  rw [Tree.resolve] at hres
  split_ifs at hres with hlong hdir
  exact hdir

/-- Whatever has a name was there or is one of the two files. -/
lemma Opened.lookup_cases (h : Opened host s s' w w' time_ns records q leaf) {p : Path} {n : Node}
    (hp : w'.tree.lookup p = some n) :
    w.tree.lookup p = some n ∨ p = indexPath q leaf ∨ p = dataPath q leaf := by
  have hindex : (w.tree.add (indexPath q leaf) (.file w.inodes)).lookup p = some n →
      w.tree.lookup p = some n ∨ p = indexPath q leaf := by
    intro hp
    rw [Tree.lookup_add _ h.index_free] at hp
    split_ifs at hp with heq
    · exact Or.inr heq
    · exact Or.inl hp
  rw [h.tree] at hp
  split_ifs at hp with h0
  · rw [Tree.lookup_add _ (beside_free _ h.index_free (h.data_free h0))] at hp
    split_ifs at hp with heq
    · exact Or.inr (Or.inr heq)
    · exact (hindex hp).imp_right Or.inl
  · exact (hindex hp).imp_right Or.inl

end StreamWriter

/-- A file is one that was there or one of a pair. -/
lemma Folder.Wrote.file_cases {host : Host} {f : Folder} {request : LogRequest} {w w' : World}
    {pairs pairs' : List FilePair} {out : Outcome}
    (h : Folder.Wrote host f request w pairs out w' pairs') {q : Path} {i : ℕ}
    (hq : w'.tree.lookup q = some (.file i)) :
    w.tree.lookup q = some (.file i) ∨ ∃ p ∈ pairs', q = p.indexPath ∨ q = p.dataPath := by
  cases h with
  | refused hout e => exact Or.inl (by rwa [← e.tree])
  | appended hout hlook hmem hdir hchannel hs e hoffset hsize => exact Or.inl (by rwa [← e.tree])
  | opened hname hfolder ho hsize =>
      refine (ho.lookup_cases hq).imp_right fun hplace => ?_
      exact ⟨_, List.mem_append_right _ (List.mem_singleton_self _), hplace⟩

/-! ## The catalogue -/

/-- **What is below the root**: `entries` are the accepted requests with the index files they went
to, `pairs` the pairs of files.  Every pair lies in the directory of a day, every request stands in
a pair of its channel and its day, and there are no other files. -/
structure Catalogue (host : Host) (root : Path) (w : World) (entries : List (ℕ × LogRequest))
    (pairs : List FilePair) : Prop where
  dir : w.tree.lookup root = some .dir
  shelved : Shelved w (entries.map fun e => (e.1, e.2.record)) pairs
  placed : ∀ p ∈ pairs, p.Placed p.dir ∧ ∃ time_ns, p.dir = dayDir host root time_ns
  there : ∀ p ∈ pairs, w.tree.lookup p.dir = some .dir
  filed : ∀ e ∈ entries, ∃ p ∈ pairs, p.index = e.1 ∧ p.stream.channel = e.2.channel ∧
    p.dir = dayDir host root e.2.time_ns
  covered : ∀ q i, root <+: q → w.tree.lookup q = some (.file i) →
    ∃ p ∈ pairs, q = p.indexPath ∨ q = p.dataPath

variable {host : Host} {root : Path} {w w' : World} {entries : List (ℕ × LogRequest)}
  {pairs pairs' : List FilePair} {request : LogRequest}

/-- The catalogue of a root that has nothing in it. -/
lemma catalogue_empty (h : EmptyRoot root w) : Catalogue host root w [] [] where
  dir := h.dir
  shelved := .empty w
  placed := by simp
  there := by simp
  filed := by simp
  covered q i hq hi := by
    by_cases hroot : q = root
    · rw [hroot, h.dir] at hi
      cases hi
    · rw [h.empty q hq hroot] at hi
      cases hi

namespace Catalogue

/-- New directories and flushes leave the catalogue as it is. -/
lemma adds (h : Catalogue host root w entries pairs) (ha : w.Adds w.inodes w')
    (hinodes : w'.inodes = w.inodes) : Catalogue host root w' entries pairs where
  dir := ha.lookup _ _ h.dir
  shelved := h.shelved.adds ha
  placed := h.placed
  there p hp := ha.lookup _ _ (h.there p hp)
  filed := h.filed
  covered q i hq hi :=
    h.covered q i hq (ha.files q i (by have := w'.linked q i hi; omega) hi)

/-- **One write** to a folder of its day puts an accepted request at the end. -/
lemma wrote (h : Catalogue host root w entries pairs) (hroot : root.Quiet) (hr : request.Proper)
    {f : Folder} (hf : f.folder_ = dayDir host root request.time_ns) {out : Outcome}
    (hwrote : Folder.Wrote host f request w pairs out w' pairs') (hg : w.Grows w') : ∃ i,
      Catalogue host root w' (entries ++ if out.positive then [(i, request)] else []) pairs' := by
  obtain ⟨i, hshelved, hnew⟩ := hwrote.shelved hr h.shelved
  have hquiet : f.folder_.Quiet := hf ▸ hroot.day _
  refine ⟨i, hg.lookup _ _ h.dir, ?_, ?_, ?_, fun e he => ?_, fun q j hq hj => ?_⟩
  · rw [List.map_append]
    split_ifs at hshelved ⊢
    · exact hshelved
    · exact hshelved
  · exact hwrote.placed (D := fun d => ∃ time_ns, d = dayDir host root time_ns) hr hquiet
      ⟨_, hf⟩ h.placed
  · refine hwrote.forall_mem (P := fun p => w'.tree.lookup p.dir = some .dir) (fun p hp => hp)
      (fun hname hfolder ho => ?_) fun p hp => hg.lookup _ _ (h.there p hp)
    obtain ⟨hq, -⟩ := ho.place_eq (by rw [hname]; exact hr.nul) (by rw [hname]; exact hr.slash)
    exact hg.lookup _ _ (hq ▸ ho.folder_dir)
  · rcases List.mem_append.mp he with he | he
    · obtain ⟨p, hp, hi, hc, hd⟩ := h.filed e he
      obtain ⟨p', hp', hi', hc', hd', -⟩ := hwrote.kept hp
      exact ⟨p', hp', hi'.trans hi, hc'.trans hc, hd'.trans hd⟩
    · split_ifs at he with hout
      · rw [List.mem_singleton.mp he]
        obtain ⟨p, hp, hi, hc, hd⟩ := hnew hout
        exact ⟨p, hp, hi, hc, hd.trans hf⟩
      · cases he
  · refine (hwrote.file_cases hj).elim (fun hold => ?_) id
    obtain ⟨p, hp, hplace⟩ := h.covered q j hq hold
    obtain ⟨p', hp', -, -, hd, hl⟩ := hwrote.kept hp
    refine ⟨p', hp', ?_⟩
    rwa [FilePair.indexPath, FilePair.dataPath, hd, hl]

end Catalogue

/-! ## Runs -/

/-- The active folder is that of its day, and its writers serve the pairs of a catalogue. -/
def FilesystemStorageBackend.Recorded (host : Host) (root : Path) (b : FilesystemStorageBackend)
    (w : World) (entries : List (ℕ × LogRequest)) : Prop :=
  b.Homed root ∧ ∃ pairs, Catalogue host root w entries pairs ∧
    (b.folder_.yyyymmdd_ ≠ 0 → b.folder_.Stocked b.folder_.folder_ pairs)

variable {b : FilesystemStorageBackend}

/-- **One call** of the backend. -/
lemma backend_write_recorded (hn : host.NeverFails) (hroot : root.Quiet) (hr : request.Proper)
    (h : b.Recorded host root w entries) : ∃ i,
      (b.write host request w).2.1.Recorded host root (b.write host request w).2.2
        (entries ++ if (b.write host request w).1.positive then [(i, request)] else []) := by
  obtain ⟨hhomed, pairs, hcat, hstocked⟩ := h
  have hhomed' := hhomed.write host request w
  obtain ⟨f, w₁, hfolder, -, hfrom, hto⟩ := backend_write_folder host hhomed request w
  -- the folder the request goes to, before it is written to
  obtain ⟨hcat₁, hstocked₁⟩ : Catalogue host root w₁ entries pairs ∧
    f.Stocked f.folder_ pairs := by
    rcases hfrom with ⟨-, rfl, hday, rfl⟩ | ⟨-, hfiles, hadds, hinodes⟩
    · exact ⟨hcat, hstocked hday⟩
    · exact ⟨hcat.adds hadds hinodes, rfl, fun channel s hlook => by simp [hfiles] at hlook⟩
  rcases hto with heq | ⟨-, hno, heq⟩
  · rw [heq] at hhomed' ⊢
    obtain ⟨pairs', hwrote, hstocked'⟩ :=
      Folder.writeChannel_wrote hn hcat₁.shelved hstocked₁ hr
    have hgrows := (f.writeChannel_reaches host (fun _ => False) request w₁).grows
    obtain ⟨i, hcat'⟩ := hcat₁.wrote hroot hr hfolder hwrote hgrows
    refine ⟨i, hhomed', pairs', hcat', fun _ => ?_⟩
    rwa [Folder.folder_writeChannel]
  · rw [heq] at hhomed' ⊢
    refine ⟨0, hhomed', pairs, ?_, fun _ => hstocked₁⟩
    rw [if_neg (by simp [hno]), List.append_nil]
    exact hcat₁

/-- **A run** enters the accepted requests in the order of the calls. -/
lemma run_recorded (hn : host.NeverFails) (hroot : root.Quiet) {requests : List LogRequest}
    (hr : ∀ r ∈ requests, r.Proper) : ∀ {b : FilesystemStorageBackend} {w : World}
      {entries : List (ℕ × LogRequest)}, b.Recorded host root w entries →
        ∃ entries', entries'.map Prod.snd = (b.run host requests w).1 ∧
          (b.run host requests w).2.1.Recorded host root (b.run host requests w).2.2
            (entries ++ entries') := by
  induction requests with
  | nil =>
      intro b w entries h
      exact ⟨[], rfl, by rwa [List.append_nil]⟩
  | cons r rs ih =>
      intro b w entries h
      obtain ⟨i, hone⟩ := backend_write_recorded hn hroot (hr r List.mem_cons_self) h
      obtain ⟨rest, hrest, hall⟩ := ih (fun x hx => hr x (List.mem_cons_of_mem _ hx)) hone
      refine ⟨(if (b.write host r w).1.positive then [(i, r)] else []) ++ rest, ?_, ?_⟩
      · rw [List.map_append, hrest, FilesystemStorageBackend.run]
        congr 1
        split_ifs <;> rfl
      · rw [← List.append_assoc]
        exact hall

/-- The accepted requests are some of all, in the order of the calls. -/
lemma run_sublist (host : Host) (requests : List LogRequest) :
    ∀ (b : FilesystemStorageBackend) (w : World), (b.run host requests w).1.Sublist requests := by
  induction requests with
  | nil => exact fun _ _ => List.Sublist.refl _
  | cons r rs ih =>
      intro b w
      rw [FilesystemStorageBackend.run]
      dsimp only
      split_ifs
      · exact (ih _ _).cons_cons r
      · exact (ih _ _).cons r

/-- **The catalogue of a run**, from an empty root to the destruction of the backend. -/
lemma run_catalogue (hn : host.NeverFails) (hroot : root.Quiet) (hempty : EmptyRoot root w)
    {requests accepted : List LogRequest} (hr : ∀ r ∈ requests, r.Proper)
    (hrun : (FilesystemStorageBackend.make root).run host requests w = (accepted, b, w')) :
    ∃ entries pairs, entries.map Prod.snd = accepted ∧
      Catalogue host root (b.destroy host w') entries pairs := by
  have hstart : (FilesystemStorageBackend.make root).Recorded host root w [] :=
    ⟨homed_make root, [], catalogue_empty hempty, fun h => absurd rfl h⟩
  obtain ⟨entries, hentries, -, pairs, hcat, -⟩ := run_recorded hn hroot hr hstart
  rw [hrun] at hentries hcat
  have e := b.folder_.close_extends host w'
  exact ⟨entries, pairs, hentries, hcat.adds (World.Adds.of_extends e (by simp)) e.inodes⟩

end Tracebox
