import Tracebox.Stream.Places

/-!
# The search for a free name

`reopenFile` tries the name of a stream, then the name with the suffixes `_1`, `_2`, … behind it,
until neither an index file nor a data file has it.  The suffix is a `uint32_t`, and what the system
makes of a name depends on the channel in it.

* `searchName_hangs_iff` — the loop goes on exactly as long as the names are taken.
* `le_children_of_taken` — **different suffixes are different files**, for a channel without a
  NUL.
* `freshName_hangs_iff` — the bound of `freshName` cuts off no search that ends.
* `finds_fresh_iff` — **the search ends with files that are new**, unless a NUL hides the suffix
  and the one name that is left is taken.
-/

namespace Tracebox

open Bytes

namespace StreamWriter

/-! ## The loop -/

/-- The names `reopenFile` looks at, in their order. -/
def candidate (base : Bytes) : ℕ → Bytes
  | 0 => base
  | k + 1 => base ++ 95 :: toDec ((k + 1) % 2 ^ 32)

lemma candidate_spec (base : Bytes) (k : ℕ) : Candidate base (candidate base k) := by
  cases k with
  | zero => exact Or.inl rfl
  | succ k => exact Or.inr ⟨k + 1, rfl⟩

/-- Up to the largest suffix, the names are different. -/
lemma candidate_injective {base : Bytes} {i j : ℕ} (hi : i < 2 ^ 32) (hj : j < 2 ^ 32)
    (h : candidate base i = candidate base j) : i = j := by
  have hlen : ∀ k, candidate base (k + 1) ≠ base := fun k heq => by
    have := congrArg List.length heq
    simp [candidate] at this
  cases i with
  | zero =>
      cases j with
      | zero => rfl
      | succ j => exact absurd h.symm (hlen j)
  | succ i =>
      cases j with
      | zero => exact absurd h (hlen i)
      | succ j =>
          have hsuffix := toDec_injective (List.cons.inj (List.append_cancel_left h)).2
          rwa [Nat.mod_eq_of_lt hi, Nat.mod_eq_of_lt hj] at hsuffix

/-- Behind the largest suffix, they come again. -/
lemma exists_candidate (base : Bytes) (k : ℕ) :
    ∃ j ≤ 2 ^ 32, j ≤ k ∧ candidate base k = candidate base j := by
  by_cases hk : k ≤ 2 ^ 32
  · exact ⟨k, hk, le_rfl, rfl⟩
  · obtain ⟨k, rfl⟩ : ∃ m, k = m + 1 := ⟨k - 1, by omega⟩
    by_cases hmod : (k + 1) % 2 ^ 32 = 0
    · refine ⟨2 ^ 32, le_rfl, by omega, ?_⟩
      have h : candidate base (2 ^ 32) = base ++ 95 :: toDec (2 ^ 32 % 2 ^ 32) := rfl
      rw [h, candidate, hmod, Nat.mod_self]
    · obtain ⟨j, hj⟩ : ∃ j, (k + 1) % 2 ^ 32 = j + 1 := ⟨(k + 1) % 2 ^ 32 - 1, by omega⟩
      have hlt : (k + 1) % 2 ^ 32 < 2 ^ 32 := Nat.mod_lt _ (by norm_num)
      refine ⟨j + 1, by omega, by omega, ?_⟩
      rw [candidate, candidate, hj, Nat.mod_eq_of_lt (by omega)]

/-- **The loop goes on as long as the names are taken.** -/
lemma searchName_hangs_iff {t : Tree} {dir : Path} {base : Bytes} {fuel : ℕ} : ∀ {i : ℕ},
    searchName t dir base fuel (i + 1) (candidate base i) = .hangs ↔
      ∀ j, i ≤ j → j < i + fuel → nameTaken t dir (candidate base j) = some true := by
  induction fuel with
  | zero =>
      intro i
      rw [searchName]
      exact iff_of_true rfl fun j h1 h2 => by omega
  | succ fuel ih =>
      intro i
      have hnext : base ++ 95 :: toDec ((i + 1) % 2 ^ 32) = candidate base (i + 1) := rfl
      rw [searchName]
      cases htaken : nameTaken t dir (candidate base i) with
      | none =>
          refine iff_of_false (by simp) fun hall => ?_
          have := hall i le_rfl (by omega)
          simp [htaken] at this
      | some taken =>
          cases taken with
          | false =>
              refine iff_of_false (by simp) fun hall => ?_
              have := hall i le_rfl (by omega)
              simp [htaken] at this
          | true =>
              simp only [hnext]
              rw [ih]
              constructor
              · intro hall j h1 h2
                rcases h1.eq_or_lt with rfl | h1
                · exact htaken
                · exact hall j h1 (by omega)
              · exact fun hall j h1 h2 => hall j (by omega) (by omega)

/-! ## Names that are taken -/

variable {host : Host} {s s' : StreamWriter} {time_ns : UInt64} {t : Tree} {w w' : World}

/-- A name is taken by an entry of the directory that the system finds under the name and one of the
two extensions. -/
lemma exists_of_taken {name : Bytes} (h : nameTaken t s.folder_ name = some true) :
    ∃ e, (e = dotIdx ∨ e = dotData) ∧ ∃ n, t.lookup
      (s.folder_.lexical (name ++ e)) = some n := by
  have hthere : ∀ rel, t.exists_ s.folder_ rel = some true →
      ∃ n, t.lookup (s.folder_.lexical rel) = some n := by
    intro rel hrel
    rw [Tree.exists_] at hrel
    split at hrel
    · rename_i p hp
      rw [← Tree.resolve_lexical hp]
      exact Option.isSome_iff_exists.mp (Option.some.inj hrel)
    · cases hrel
    · cases hrel
  unfold nameTaken at h
  split at h
  · cases h
  · rename_i hidx
    exact ⟨dotIdx, Or.inl rfl, hthere _ hidx⟩
  · exact ⟨dotData, Or.inr rfl, hthere _ h⟩

/-- **Different suffixes are different files**: without a NUL in the channel, the first names that
are taken are taken by as many entries of one directory. -/
lemma le_children_of_taken (h0 : (0 : UInt8) ∉ s.name_) {n : ℕ} (hn : n ≤ 2 ^ 32)
    (htaken : ∀ j < n, nameTaken t s.folder_
      (candidate (s.fileName host time_ns) j) = some true) :
    ∃ dir, n ≤ (t.children dir).length := by
  obtain ⟨stem, q, last, hplaces⟩ := candidate_places host time_ns h0
  refine ⟨q, ?_⟩
  -- each name has an entry of its own
  have hentry : ∀ j < n, ∃ c ∈ (t.children q).map Prod.fst, ∃ ext e : Bytes,
      candidate (s.fileName host time_ns) j = stem ++ 95 :: ext ∧ (e = dotIdx ∨ e = dotData) ∧
        c = (last ++ 95 :: ext) ++ e := by
    intro j hj
    obtain ⟨ext, hname, -, hplace⟩ := hplaces _ (candidate_spec _ j)
    obtain ⟨e, he, node, hnode⟩ := exists_of_taken (htaken j hj)
    have hplain : (0 : UInt8) ∉ e ∧ (47 : UInt8) ∉ e := by
      rcases he with rfl | rfl
      · exact notMem_dotIdx
      · exact notMem_dotData
    rw [hplace e hplain.1 hplain.2] at hnode
    exact ⟨_, List.mem_map.mpr ⟨_, Tree.mem_children.mpr hnode, rfl⟩, ext, e,
      hname, he, rfl⟩
  choose! c hmem ext e hname he hc using hentry
  have hinj : Set.InjOn c (Finset.range n) := by
    intro i hi j hj hij
    have hi' := Finset.mem_range.mp hi
    have hj' := Finset.mem_range.mp hj
    rw [hc i hi', hc j hj'] at hij
    -- the two extensions end in different letters
    have hleaf : last ++ 95 :: ext i = last ++ 95 :: ext j := by
      rcases he i hi' with h1 | h1 <;> rcases he j hj' with h2 | h2 <;> rw [h1, h2] at hij
      · exact List.append_cancel_right hij
      · exact absurd hij (append_dotIdx_ne _ _)
      · exact absurd hij.symm (append_dotIdx_ne _ _)
      · exact List.append_cancel_right hij
    have hext := List.append_cancel_left hleaf
    have hsame : candidate (s.fileName host time_ns) i = candidate (s.fileName host time_ns) j := by
      rw [hname i hi', hname j hj', hext]
    exact candidate_injective (by omega) (by omega) hsame
  have hcard := Finset.card_le_card_of_injOn c
    (t := ((t.children q).map Prod.fst).toFinset)
    (fun j hj => List.mem_toFinset.mpr (hmem j (Finset.mem_range.mp hj))) hinj
  rw [Finset.card_range] at hcard
  exact hcard.trans ((List.toFinset_card_le _).trans (List.length_map _).le)

/-- A NUL hides everything behind it, so all the names are one. -/
lemma nameTaken_candidate_of_nul (h0 : (0 : UInt8) ∈ s.name_) (dir : Path) (j : ℕ) :
    nameTaken t dir (candidate (s.fileName host time_ns) j) =
      nameTaken t dir (s.fileName host time_ns) := by
  have hbase : (0 : UInt8) ∈ s.fileName host time_ns := by simp [fileName, h0]
  cases j with
  | zero => rfl
  | succ j =>
      have hsame : ∀ e : Bytes, t.resolve dir (candidate (s.fileName host time_ns) (j + 1) ++ e) =
          t.resolve dir (s.fileName host time_ns ++ e) := by
        intro e
        rw [candidate, List.append_assoc, resolve_nul t dir hbase, resolve_nul t dir hbase]
      rw [nameTaken, nameTaken, Tree.exists_, Tree.exists_, Tree.exists_,
        Tree.exists_, hsame, hsame]

/-! ## The end of the search -/

/-- The loop of `reopenFile`, watched for a number of rounds. -/
def nameLoop (host : Host) (s : StreamWriter) (time_ns : UInt64) (t : Tree) (rounds : ℕ) :
    NameSearch :=
  searchName t s.folder_ (s.fileName host time_ns) rounds 1 (s.fileName host time_ns)

lemma nameLoop_hangs_iff {rounds : ℕ} : s.nameLoop host time_ns t rounds = .hangs ↔
    ∀ j < rounds, nameTaken t s.folder_ (candidate (s.fileName host time_ns) j) = some true := by
  refine (searchName_hangs_iff (i := 0)).trans ?_
  simp only [Nat.zero_le, true_implies, Nat.zero_add]

/-- **The bound of `freshName` cuts off no search that ends.** -/
theorem freshName_hangs_iff : s.freshName host time_ns t = .hangs ↔
    ∀ rounds, s.nameLoop host time_ns t rounds = .hangs := by
  refine ⟨fun h rounds => ?_, fun h => h _⟩
  have htaken := nameLoop_hangs_iff.mp h
  refine nameLoop_hangs_iff.mpr fun k _ => ?_
  by_cases h0 : (0 : UInt8) ∈ s.name_
  · rw [nameTaken_candidate_of_nul h0, ← nameTaken_candidate_of_nul h0 s.folder_ 0]
    exact htaken 0 (Nat.succ_pos _)
  · -- that many names are taken only if the suffixes are used up
    have hlarge : 2 ^ 32 ≤ t.entries.length := by
      by_contra hsmall
      obtain ⟨dir, hdir⟩ := le_children_of_taken h0 (n := t.entries.length + 1)
        (by omega) htaken
      have hle : (t.children dir).length ≤ t.entries.length := List.length_filterMap_le _ _
      omega
    obtain ⟨j, hj, -, hsame⟩ := exists_candidate (s.fileName host time_ns) k
    rw [hsame]
    exact htaken j (by omega)

/-- The files of a stream that was opened are new. -/
lemma reopenFile_fresh {v : ℤ} (h : s.reopenFile host time_ns w = (.ret v, s', w')) (hv : 0 < v) :
    (w.inodes ≤ s'.indexInode ∧ s'.indexInode < w'.inodes) ∧
      (s.record_size_ = 0 → w.inodes ≤ s'.dataInode ∧ s'.dataInode < w'.inodes) := by
  obtain ⟨file_name, p, hc⟩ := reopenFile_created h hv
  rw [hc.indexInode]
  refine ⟨⟨le_rfl, hc.inodes⟩, fun hsize => ⟨?_, (hc.data hsize).2.1⟩⟩
  by_cases h0 : (0 : UInt8) ∈ s.name_
  · -- the system finds the new index file under the name of the data file
    have hname : (0 : UInt8) ∈ file_name := by
      have hbase : (0 : UInt8) ∈ s.fileName host time_ns := by simp [fileName, h0]
      rcases hc.candidate with rfl | ⟨k, rfl⟩
      · exact hbase
      · exact List.mem_append_left _ hbase
    rw [hc.same hsize hname]
  · obtain ⟨-, q, leaf, ho⟩ := reopenFile_pos h hv h0
    have hdata := ho.writes.data hsize
    rw [dataInode, hdata, Option.getD_some]
    exact Nat.le_succ _

/-- **What the search for a name is for**: it ends, nothing has the name it ends on, and the files
that are opened under it belong to no other writer. -/
structure FindsFresh (host : Host) (s : StreamWriter) (request : LogRequest)
    (w : World) : Prop where
  ends : ∃ rounds, (s.named request).nameLoop host request.time_ns w.tree rounds ≠ .hangs
  free : ∀ rounds name, (s.named request).nameLoop host request.time_ns w.tree rounds =
    .found name →
    w.tree.exists_ s.folder_ (name ++ dotIdx) = some false ∧
      w.tree.exists_ s.folder_ (name ++ dotData) = some false
  fresh : ∀ v s' w', s.openFile host request w = (.ret v, s', w') → 0 < v →
    (w.inodes ≤ s'.indexInode ∧ s'.indexInode < w'.inodes) ∧
      (request.size = 0 → w.inodes ≤ s'.dataInode ∧ s'.dataInode < w'.inodes)

/-- **The search finds new files exactly when the suffix can be seen or is not needed.**  No
directory has `2 ^ 32` entries. -/
theorem finds_fresh_iff {request : LogRequest}
    (hfew : ∀ dir, (w.tree.children dir).length < 2 ^ 32) :
    s.FindsFresh host request w ↔ (0 : UInt8) ∉ request.channel ∨
      nameTaken w.tree s.folder_ ((s.named request).fileName host request.time_ns) ≠
        some true := by
  constructor
  · rintro ⟨⟨rounds, hends⟩, -, -⟩
    by_contra hno
    obtain ⟨hnul, htaken⟩ := not_or.mp hno
    refine hends (nameLoop_hangs_iff.mpr fun j _ => ?_)
    rw [nameTaken_candidate_of_nul (s := s.named request) (not_not.mp hnul)]
    exact not_not.mp htaken
  · intro hcond
    refine ⟨?_, fun rounds name h => ?_, fun v s' w' h hv => reopenFile_fresh h hv⟩
    · by_contra hhangs
      have htaken : ∀ j, nameTaken w.tree s.folder_
          (candidate ((s.named request).fileName host request.time_ns) j) = some true := fun j => by
        by_contra hfree
        exact hhangs ⟨j + 1, fun h => hfree (nameLoop_hangs_iff.mp h j (Nat.lt_succ_self j))⟩
      rcases hcond with h0 | hbase
      · obtain ⟨dir, hdir⟩ := le_children_of_taken (s := s.named request) h0 le_rfl
          fun j _ => htaken j
        exact absurd hdir (not_le.mpr (hfew dir))
      · exact hbase (htaken 0)
    · exact (searchName_found (Or.inl rfl) h).2

/-- A channel of records of four bytes. -/
def fourBytes (channel : Bytes) : LogRequest :=
  { channel := channel, size := 4, data := [], time_ns := 1704067200000000000 }

/-- The world in which its files were created at that second. -/
def fourBytesOpened (channel : Bytes) : Outcome × StreamWriter × World :=
  ({ folder_ := [ascii "r"] } : StreamWriter).openFile .january (fourBytes channel)
    (.bare [ascii "r"])

/-- The files of a second writer in the same second. -/
theorem finds_fresh_second :
    ({ folder_ := [ascii "r"] } : StreamWriter).FindsFresh .january (fourBytes (ascii "a"))
      (fourBytesOpened (ascii "a")).2.2 := by
  obtain ⟨hnul, hentries⟩ : (0 : UInt8) ∉ (fourBytes (ascii "a")).channel ∧
      (fourBytesOpened (ascii "a")).2.2.tree.entries.length < 2 ^ 32 := by
    decide +kernel
  exact (finds_fresh_iff fun dir => (List.length_filterMap_le _ _).trans_lt hentries).mpr
    (Or.inl hnul)

/-- **A channel with a NUL in it.**  Its first stream is created, and the search for the name of a
second one in the same second never ends. -/
theorem nul_search_endless :
    let channel := ascii "a" ++ 0 :: ascii "b"
    (fourBytesOpened channel).1 = .ret 49 ∧
    (∀ rounds, (({ folder_ := [ascii "r"] } : StreamWriter).named (fourBytes channel)).nameLoop
      .january 1704067200000000000 (fourBytesOpened channel).2.2.tree rounds = .hangs) ∧
    (({ folder_ := [ascii "r"] } : StreamWriter).openFile .january (fourBytes channel)
      (fourBytesOpened channel).2.2).1 = .hangs := by
  intro channel
  obtain ⟨hopened, hnul, htaken, hhangs⟩ : (fourBytesOpened channel).1 = .ret 49 ∧
      (0 : UInt8) ∈ channel ∧ nameTaken (fourBytesOpened channel).2.2.tree [ascii "r"]
        ((({ folder_ := [ascii "r"] } : StreamWriter).named (fourBytes channel)).fileName .january
          1704067200000000000) = some true ∧
      (({ folder_ := [ascii "r"] } : StreamWriter).openFile .january (fourBytes channel)
        (fourBytesOpened channel).2.2).1 = .hangs := by
    decide +kernel
  refine ⟨hopened, fun rounds => nameLoop_hangs_iff.mpr fun j _ => ?_, hhangs⟩
  rw [nameTaken_candidate_of_nul hnul]
  exact htaken

end StreamWriter

end Tracebox
