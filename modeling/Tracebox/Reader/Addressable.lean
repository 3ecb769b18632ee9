import Tracebox.Reader.PathConfinement
import Tracebox.Stream.Pairing

/-!
# Streams that can be named

Discovery gives every index file an identifier, its path relative to the storage root, and asks
`resolveIndexPath` for the file again, as it does with identifiers that come from a client.  The
rules for identifiers keep clients inside the storage root; the writer does not know them.

* `splitOn_generic_string`, `lexically_relative_not_below` — what an identifier looks like.
* `identified_iff` — **which files are found again under their own identifier**.
* `addressable_iff` — the same for a file `openFile` created, in terms of the channel.
-/

namespace Tracebox

open Bytes

namespace Path

lemma normalize_eq (p : Path) : normalize p = p.foldl enter [] := rfl

/-- Plain components are followed one after the other. -/
lemma Plain.foldl_enter {p : Path} (h : p.Plain) (dir : Path) : p.foldl enter dir = dir ++ p := by
  induction p generalizing dir with
  | nil => simp
  | cons c p ih =>
      obtain ⟨hne, -, hdot, hdots, -⟩ := h c List.mem_cons_self
      have hc : dir.enter c = dir ++ [c] := by simp [enter, hne, hdot, hdots]
      rw [List.foldl_cons, hc, ih fun d hd => h d (List.mem_cons_of_mem _ hd), List.append_assoc,
        List.singleton_append]

lemma Plain.normalize {p : Path} (h : p.Plain) : Tracebox.normalize p = p := by
  rw [normalize_eq, h.foldl_enter, List.nil_append]

end Path

/-! ## Identifiers -/

/-- The components of an identifier. -/
lemma splitOn_generic_string : ∀ {p : Path}, p ≠ [] → (∀ c ∈ p, (47 : UInt8) ∉ c) →
    splitOn 47 (generic_string p) = p
  | [], h, _ => absurd rfl h
  | [c], _, h => by
      have hs : generic_string [c] = c := by simp [generic_string]
      rw [hs, splitOn_of_notMem (h c List.mem_cons_self)]
  | c :: d :: p, _, h => by
      have hs : generic_string (c :: d :: p) = c ++ 47 :: generic_string (d :: p) := by
        simp [generic_string]
      rw [hs, splitOn_append_sep (h c List.mem_cons_self), splitOn_generic_string
        (List.cons_ne_nil _ _) fun e he => h e (List.mem_cons_of_mem _ he)]

lemma lexically_relative_below (root : Path) {below : Path} (h : below ≠ []) :
    lexically_relative (root ++ below) root = below := by
  induction root with
  | nil =>
      cases below with
      | nil => exact absurd rfl h
      | cons c below => simp [lexically_relative]
  | cons c root ih => simpa [lexically_relative] using ih

/-- A path that is not below the root is named by `.` or with a `..` in front. -/
lemma lexically_relative_not_below : ∀ {root p : Path},
    (∀ below, below ≠ [] → p ≠ root ++ below) → lexically_relative p root = [[46]] ∨
      [46, 46] ∈ lexically_relative p root ∧ ∀ c ∈ lexically_relative p root, c ∈
        p ∨ c = [46, 46]
  | [], [], _ => Or.inl rfl
  | [], c :: p, h => absurd rfl (h (c :: p) (List.cons_ne_nil _ _))
  | d :: root, [], _ => by simp [lexically_relative]
  | d :: root, c :: p, h => by
      rw [lexically_relative]
      split_ifs with hc
      · have hrest : ∀ below, below ≠ [] → p ≠ root ++ below := by
          rintro below hne rfl
          exact h below hne (by rw [hc, List.cons_append])
        refine (lexically_relative_not_below hrest).imp_right fun ⟨hd, hmem⟩ =>
          ⟨hd, fun e he => ?_⟩
        exact (hmem e he).imp_left (List.mem_cons_of_mem _)
      · right
        constructor
        · simp [List.replicate_succ]
        · intro e he
          rcases List.mem_append.mp he with he | he
          · exact Or.inr (List.eq_of_mem_replicate he)
          · exact Or.inl he

namespace StorageScanner

/-- What the rules for identifiers ask of a path. -/
@[mk_iff]
structure Nameable (root p : Path) : Prop where
  below : root <+: p.dropLast
  separator : ∀ c ∈ p.drop root.length, (92 : UInt8) ∉ c
  idx : extension (p.getLastD []) = dotIdx

/-- **A file is found again under its own identifier** when the rules admit its path and the file is
an index. -/
lemma identified_iff {root p : Path} {v : View} {content : Bytes} (hroot : root.Plain)
    (hp : p.Plain) (hcanon : ∀ q, v.weakly_canonical q = some (normalize q))
    (hlook : v.look p = some (.file content)) :
    (∃ identifier, (⟨root⟩ : StorageScanner).streamIdentifier v p = some identifier ∧
      (⟨root⟩ : StorageScanner).resolveIndexPath v identifier = some p) ↔
    Nameable root p ∧ ∃ h, IndexFileReader.IsIndex h content := by
  have hid : (⟨root⟩ : StorageScanner).streamIdentifier v p =
      some (generic_string (lexically_relative p root)) := by
    simp [streamIdentifier, hcanon, hroot.normalize, hp.normalize]
  have hregular : StreamReader.is_regular_file v p = true := by
    rw [StreamReader.is_regular_file, hlook]
  simp only [hid, Option.some.injEq, exists_eq_left', resolveIndexPath_eq_some_iff,
    hcanon, hregular, IndexFileReader.validIndex_make_iff hlook, nameable_iff, true_and]
  by_cases hbelow : ∃ below, below ≠ [] ∧ p = root ++ below
  · obtain ⟨below, hne, rfl⟩ := hbelow
    have hplain : Path.Plain below := fun c hc => hp c (List.mem_append_right _ hc)
    obtain ⟨file, hfile⟩ : ∃ file, file = generic_string below := ⟨_, rfl⟩
    have hsplit : splitOn 47 file = below := by
      rw [hfile, splitOn_generic_string hne fun c hc => (hplain c hc).2.1]
    have hhead : file.head? ≠ some 47 := by
      intro hhead
      cases file with
      | nil => cases hhead
      | cons b bs =>
          cases hhead
          rw [splitOn, if_pos rfl] at hsplit
          exact (hplain [] (hsplit ▸ List.mem_cons_self)).1 rfl
    have hdots : [46, 46] ∉ splitOn 47 file := by
      rw [hsplit]
      exact fun h => (hplain _ h).2.2.2.1 rfl
    have hnul : (0 : UInt8) ∉ file := by
      have hsep : (0 : UInt8) ≠ 47 := by decide
      rw [mem_iff_exists_splitOn hsep, hsplit]
      rintro ⟨c, hc, h0⟩
      exact (hplain c hc).2.2.2.2 h0
    have hback : (92 : UInt8) ∉ file ↔ ∀ c ∈ below, (92 : UInt8) ∉ c := by
      have hsep : (92 : UInt8) ≠ 47 := by decide
      rw [mem_iff_exists_splitOn hsep, hsplit]
      simp only [not_exists, not_and]
    have hhostile : ¬ Hostile file ↔ ∀ c ∈ below, (92 : UInt8) ∉ c := by
      rw [← hback, Hostile]
      simp [hhead, hdots, hnul]
    have hnorm : normalize (root ++ below) = root ++ below := hp.normalize
    have hlast : (root ++ below).getLastD [] = filename file := by
      rw [filename, hsplit]
      rcases List.eq_nil_or_concat' below with hnil | ⟨init, c, hc⟩
      · exact absurd hnil hne
      · rw [hc, ← List.append_assoc, List.getLastD_concat, List.getLastD_concat]
    have hparent : root <+: (root ++ below).dropLast := by
      rw [List.dropLast_append_of_ne_nil hne]
      exact List.prefix_append _ _
    rw [lexically_relative_below root hne, ← hfile, hsplit, hnorm, hhostile,
      List.drop_left, hlast]
    simp only [hparent, List.prefix_append, true_and]
  · have hnot : ∀ below, below ≠ [] → p ≠ root ++ below := fun below hne h =>
      hbelow ⟨below, hne, h⟩
    constructor
    · rintro ⟨⟨htext, hext⟩, -⟩
      rcases lexically_relative_not_below hnot with hdot | ⟨hdots, hmem⟩
      · rw [hdot] at hext
        exact absurd hext (by rw [StreamWriter.dotIdx_eq]; decide)
      · refine absurd (Or.inr (Or.inl ?_)) htext
        rw [splitOn_generic_string (List.ne_nil_of_mem hdots) fun c hc => ?_]
        · exact hdots
        · rcases hmem c hc with hc | rfl
          · exact (hp c hc).2.1
          · decide
    · rintro ⟨⟨⟨init, hinit⟩, -, hext⟩, -⟩
      rcases List.eq_nil_or_concat' p with rfl | ⟨q, c, rfl⟩
      · exact absurd hext (by rw [StreamWriter.dotIdx_eq]; decide)
      · rw [List.dropLast_concat] at hinit
        exact absurd (by rw [← hinit, List.append_assoc]) (hnot (init ++ [c]) (by simp))

end StorageScanner

/-! ## New streams -/

/-- A name that `.idx` was put behind has that extension. -/
lemma extension_append {name : Bytes} (h : name ≠ []) : extension (name ++ dotIdx) = dotIdx := by
  have hrev : (name ++ dotIdx).reverse.dropWhile (· ≠ 46) = 46 :: name.reverse := by
    rw [List.reverse_append, StreamWriter.dotIdx_eq]
    rfl
  have hpos := List.length_pos_iff.mpr h
  have hdots : name ++ dotIdx ≠ [46, 46] := by
    intro heq
    have hlen := congrArg List.length heq
    rw [StreamWriter.dotIdx_eq] at hlen
    simp at hlen
  rw [extension, if_neg hdots, hrev]
  simp only [List.reverse_cons, List.reverse_reverse, List.length_append, List.length_singleton,
    Nat.add_sub_cancel, List.drop_left]
  rw [if_neg (by omega)]

namespace StreamWriter

variable {host : Host} {s s' : StreamWriter} {time_ns : UInt64} {w w' : World}

/-- What decides about an index file is the same for every name the loop of `reopenFile` tries. -/
lemma place_iff {file_name : Bytes} (hc : Candidate (s.fileName host time_ns) file_name)
    {root : Path} : StorageScanner.Nameable root (s.folder_.lexical (file_name ++ dotIdx)) ↔
      StorageScanner.Nameable root (s.folder_.lexical (s.fileName host time_ns ++ dotIdx)) := by
  by_cases hnul : (0 : UInt8) ∈ s.name_
  · obtain ⟨stem, hstem, hcandidates⟩ := candidates host s time_ns
    obtain ⟨ext₀, hbase, -⟩ := hcandidates _ (Or.inl rfl)
    obtain ⟨ext, hname, -⟩ := hcandidates _ hc
    have hstem0 := (hstem 0 (by decide) (by decide)).mpr hnul
    have hsame : s.folder_.lexical (file_name ++ dotIdx) =
        s.folder_.lexical (s.fileName host time_ns ++ dotIdx) := by
      rw [hname, hbase, List.append_assoc, List.append_assoc, Path.lexical_append_of_nul _ hstem0,
        Path.lexical_append_of_nul _ hstem0]
    rw [hsame]
  · obtain ⟨_, q, last, hplaces⟩ := candidate_places host time_ns hnul
    have hone : ∀ {ext : Bytes}, (∀ b, isDigit b = false → b ≠ 95 → b ∉ 95 :: ext) →
        (StorageScanner.Nameable root (q ++ [(last ++ 95 :: ext) ++ dotIdx]) ↔
          root <+: q ∧ (∀ c ∈ q.drop root.length, (92 : UInt8) ∉ c) ∧
            (92 : UInt8) ∉ last) := by
      intro ext hext
      have hback : (92 : UInt8) ∉ (last ++ 95 :: ext) ++ dotIdx ↔ (92 : UInt8) ∉ last := by
        have h92 := hext 92 (by decide) (by decide)
        rw [List.mem_append, List.mem_append, dotIdx_eq]
        simp [h92]
      rw [StorageScanner.nameable_iff, List.dropLast_concat, List.getLastD_concat,
        extension_append (by simp)]
      refine and_congr_right fun hroot => ?_
      rw [List.drop_append_of_le_length hroot.length_le]
      rw [List.forall_mem_append, List.forall_mem_singleton, hback]
      exact and_iff_left rfl
    obtain ⟨ext₀, -, hext₀, hbase⟩ := hplaces _ (Or.inl rfl)
    obtain ⟨ext, -, hext, hname⟩ := hplaces _ hc
    rw [hname _ notMem_dotIdx.1 notMem_dotIdx.2, hbase _ notMem_dotIdx.1 notMem_dotIdx.2, hone hext,
      hone hext₀]

/-- **Which new streams can be named.**  `openFile` created the index file `p` for a stream in a day
directory; `w''` is any later world in which the files have only got longer. -/
theorem addressable_iff {request : LogRequest} {root : Path} {day : ℕ} {w'' : World} {v : ℤ}
    {p : Path} (overrun : Path → Bytes) (hfolder : s.folder_ = root ++ [toDec day])
    (hroot : root.Plain) (h : s.openFile host request w = (.ret v, s', w')) (hv : 0 < v)
    (hp : w'.tree.lookup p = some (.file s'.indexInode)) (hg : w'.Grows w'') :
    let scanner : StorageScanner := ⟨root⟩
    let view := w''.view (fun _ i => w''.content i) overrun
    let path := s.folder_.lexical ((s.named request).fileName host request.time_ns ++ dotIdx)
    (∃ identifier, scanner.streamIdentifier view p = some identifier ∧
      scanner.resolveIndexPath view identifier = some p) ↔
    StorageScanner.Nameable root path ∧
      sizeofLogFileHeader ≤ (w''.content s'.indexInode).length % 2 ^ 32 := by
  intro scanner view path
  obtain ⟨file_name, p', hc⟩ := reopenFile_created h hv
  rw [hc.indexInode] at hp ⊢
  obtain rfl := (hc.lookup p).mp hp
  have hday : s.folder_.Plain := by
    intro c hmem
    rw [hfolder] at hmem
    rcases List.mem_append.mp hmem with hmem | hmem
    · exact hroot c hmem
    · rw [List.mem_singleton.mp hmem]
      have hdot : (46 : UInt8) ∉ toDec day := notMem_toDec (by decide) day
      refine ⟨toDec_ne_nil day, notMem_toDec (by decide) day, ?_, ?_,
        notMem_toDec (by decide) day⟩
      · exact fun h => hdot (h ▸ List.mem_cons_self)
      · exact fun h => hdot (h ▸ List.mem_cons_self)
  have hplain : p.Plain := hc.place ▸ hday.lexical _
  -- the index header stays where it was written
  have hhas : HasHeader (w''.content w.inodes)
      ((s.named request).header request.time_ns kIndexFile) :=
    hasHeader_mono (hc.content.trans (hg.content w.inodes))
  have hindex : (∃ h, IndexFileReader.IsIndex h (w''.content w.inodes)) ↔
      sizeofLogFileHeader ≤ (w''.content w.inodes).length % 2 ^ 32 := by
    constructor
    · rintro ⟨h, -, h49, hle, -⟩
      exact h49.trans hle
    · exact fun hle => ⟨_, hhas, le_rfl, hle, rfl⟩
  have hlook : view.look p = some (.file (w''.content w.inodes)) := by
    simp only [view, World.view, hg.lookup _ _ hp]
  rw [StorageScanner.identified_iff hroot hplain (fun q => rfl) hlook, hindex, hc.place]
  exact and_congr_left fun _ => place_iff hc.candidate

/-- A storage root with one day, in which a channel is opened. -/
def dayOpened (channel : Bytes) : Outcome × StreamWriter × World :=
  ({ folder_ := [ascii "root", ascii "20240101"] } : StreamWriter).openFile .january
    { channel := channel, size := 0, data := [], time_ns := 1704067200000000000 }
    ((World.bare [ascii "root"]).mkdirs [ascii "root", ascii "20240101"])

/-- The index file of a channel in the day directory. -/
def dayPath (channel : Bytes) : Path :=
  [ascii "root", ascii "20240101", ascii "000000_" ++ channel ++ ascii "_0.idx"]

/-- A channel with a space in its name can be addressed. -/
theorem addressable_sample :
    let w := (dayOpened (ascii "cam 1")).2.2
    ∃ identifier,
      (⟨[ascii "root"]⟩ : StorageScanner).streamIdentifier
        (w.view (fun _ i => w.content i) fun _ => [])
        (dayPath (ascii "cam 1")) = some identifier ∧
      (⟨[ascii "root"]⟩ : StorageScanner).resolveIndexPath
        (w.view (fun _ i => w.content i) fun _ => []) identifier =
          some (dayPath (ascii "cam 1")) := by
  obtain ⟨hopen, hp⟩ : (dayOpened (ascii "cam 1")).1 = .ret 98 ∧
      (dayOpened (ascii "cam 1")).2.2.tree.lookup (dayPath (ascii "cam 1")) =
        some (.file (dayOpened (ascii "cam 1")).2.1.indexInode) := by
    decide +kernel
  obtain ⟨hfolder, hroot⟩ : [ascii "root", ascii "20240101"] = [ascii "root"] ++
    [toDec 20240101] ∧
      Path.Plain [ascii "root"] := by
    decide +kernel
  have hiff := @addressable_iff .january { folder_ := [ascii "root", ascii "20240101"] }
    (dayOpened (ascii "cam 1")).2.1 ((World.bare [ascii "root"]).mkdirs
      [ascii "root", ascii "20240101"])
    (dayOpened (ascii "cam 1")).2.2
    { channel := ascii "cam 1", size := 0, data := [], time_ns := 1704067200000000000 }
    [ascii "root"] 20240101 (dayOpened (ascii "cam 1")).2.2 98
      (dayPath (ascii "cam 1")) (fun _ => [])
    hfolder hroot (Prod.ext hopen rfl) (by decide) hp (World.Grows.refl _)
  refine hiff.mpr ?_
  rw [StorageScanner.nameable_iff]
  decide +kernel

/-- **A channel with a backslash in it.**  Its files are created, and their identifier is
refused. -/
theorem backslash_not_addressable :
    let channel := ascii "cam" ++ [92]
    let o := dayOpened channel
    let v := o.2.2.view (fun _ i => o.2.2.content i) fun _ => []
    let identifier := ascii "20240101/000000_cam" ++ [92] ++ ascii "_0.idx"
    o.1 = .ret 98 ∧ o.2.2.tree.lookup (dayPath channel) = some (.file o.2.1.indexInode) ∧
    (⟨[ascii "root"]⟩ : StorageScanner).streamIdentifier v (dayPath channel) =
      some identifier ∧
    (⟨[ascii "root"]⟩ : StorageScanner).resolveIndexPath v identifier = none := by
  decide +kernel

end StreamWriter

end Tracebox
