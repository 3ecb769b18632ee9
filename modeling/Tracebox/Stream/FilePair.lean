import Tracebox.Stream.Append
import Tracebox.Stream.ReadBack

/-!
# Streams on disk

A `FilePair` is a stream together with the place it is stored at: the two inodes and the directory
and name the two files share.

* `Kept` — the bytes that went to the two inodes are the stream's, in the stream's order.  Other
  files may be written in between.
* `Linked` — the paths lead to the two inodes.

A pair stays kept while others write (`Kept.grow`) and grows with its own writer (`Kept.push`).
`shows_cut` hands a kept and linked pair to the reader, also when its files are looked at as they
were at earlier moments.
-/

namespace Tracebox

open Bytes

/-! ## Paths -/

/-- The components of a text behind a first piece. -/
lemma splitOn_append_string {p : Path} (hp : ∀ c ∈ p, (47 : UInt8) ∉ c) : ∀ {c₀ : Bytes},
    (47 : UInt8) ∉ c₀ → splitOn 47 (c₀ ++ p.string) = c₀ :: p := by
  induction p with
  | nil =>
      intro c₀ h0
      simpa [Path.string] using splitOn_of_notMem h0
  | cons c p ih =>
      intro c₀ h0
      have hc := ih (fun d hd => hp d (List.mem_cons_of_mem _ hd)) (hp c List.mem_cons_self)
      have hs : Path.string (c :: p) = 47 :: (c ++ Path.string p) := rfl
      rw [hs, splitOn_append_sep h0, hc]

/-- A canonical path is what its text denotes. -/
lemma Path.ofString_string {p : Path} (hp : ∀ c ∈ p, c ≠ [] ∧ (47 : UInt8) ∉ c) :
    Path.ofString p.string = p := by
  have hsplit := splitOn_append_string (fun c hc => (hp c hc).2) (List.not_mem_nil (a := 47))
  rw [List.nil_append] at hsplit
  rw [ofString, hsplit, List.filter_cons_of_neg (by simp), List.filter_eq_self]
  intro c hc
  cases c with
  | nil => exact absurd rfl (hp [] hc).1
  | cons b bs => rfl

lemma Path.string_append (p q : Path) : Path.string (p ++ q) = p.string ++ q.string := by
  simp [string]

lemma Path.string_singleton (c : Bytes) : Path.string [c] = 47 :: c := by
  simp [string]

open StreamWriter in
/-- The data file beside an index file. -/
lemma besideIndex_indexPath {q : Path} {leaf : Bytes} (h : IsIndexPath (indexPath q leaf)) :
    besideIndex (indexPath q leaf) = dataPath q leaf := by
  have hleaf := h.canonical (leaf ++ dotIdx) (by simp)
  have hdata : ∀ c ∈ dataPath q leaf, c ≠ [] ∧ (47 : UInt8) ∉ c := by
    intro c hc
    rcases List.mem_append.mp hc with hc | hc
    · exact h.canonical c (by simp [hc])
    · rw [List.mem_singleton.mp hc]
      have : (47 : UInt8) ∉ leaf := fun hm => hleaf.2 (List.mem_append_left _ hm)
      simp [dotData_eq, this]
  have hstring : (indexPath q leaf).string = (q.string ++ 47 :: leaf) ++ dotIdx := by
    simp [Path.string_append, Path.string_singleton]
  have htake : (indexPath q leaf).string.take ((indexPath q leaf).string.length - 4) =
      q.string ++ 47 :: leaf := by
    rw [hstring]
    refine List.take_left' ?_
    have h4 : dotIdx.length = 4 := by rw [dotIdx_eq]; rfl
    have hlen : ((q.string ++ 47 :: leaf) ++ dotIdx).length =
      (q.string ++ 47 :: leaf).length + 4 := by
      rw [List.length_append, h4]
    rw [hlen, Nat.add_sub_cancel]
  rw [besideIndex, StreamReader.dataPath, htake]
  have hd : (q.string ++ 47 :: leaf) ++ dotData = (dataPath q leaf).string := by
    simp [Path.string_append, Path.string_singleton]
  rw [hd, Path.ofString_string hdata]

/-! ## File pairs -/

/-- A stream and where it is stored.  A stream of fixed-size records has no data file, and its
`data` means nothing. -/
structure FilePair where
  stream : Stream
  index : ℕ
  data : ℕ
  dir : Path
  leaf : Bytes

namespace FilePair

variable {f : FilePair} {w w' : World}

/-- The path of the index file. -/
def indexPath (f : FilePair) : Path := StreamWriter.indexPath f.dir f.leaf
/-- The path of the data file. -/
def dataPath (f : FilePair) : Path := StreamWriter.dataPath f.dir f.leaf

/-- The pair with one more record. -/
def push (f : FilePair) (r : Record) : FilePair := { f with stream := f.stream.push r }

/-- A byte of one of the two files. -/
def owns (f : FilePair) (e : ℕ × UInt8) : Bool :=
  decide (e.1 = f.index ∨ (f.stream.record_size = 0 ∧ e.1 = f.data))

lemma owns_iff {e : ℕ × UInt8} :
    f.owns e = true ↔ e.1 = f.index ∨ (f.stream.record_size = 0 ∧ e.1 = f.data) := by
  simp [owns]

lemma owns_false_iff {e : ℕ × UInt8} :
    f.owns e = false ↔ e.1 ≠ f.index ∧ (f.stream.record_size = 0 → e.1 ≠ f.data) := by
  simp [owns]

/-- The bytes in the two files are the stream's, in the stream's order. -/
structure Kept (f : FilePair) (w : World) : Prop where
  ne : f.index ≠ f.data
  index_lt : f.index < w.inodes
  data_lt : f.stream.record_size = 0 → f.data < w.inodes
  tape : w.tape.filter f.owns = f.stream.tape f.index f.data

/-- The paths lead to the two files, and no other path leads to the index file. -/
structure Linked (f : FilePair) (w : World) : Prop where
  index : ∀ p, w.tree.lookup p = some (.file f.index) ↔ p = f.indexPath
  data : f.stream.record_size = 0 → w.tree.lookup f.dataPath = some (.file f.data)

/-! ### Contents -/

lemma project_index (f : FilePair) (tape : List (ℕ × UInt8)) :
    Tape.project f.index (tape.filter f.owns) = Tape.project f.index tape :=
  Tape.project_filter (by simp [owns]) tape

lemma project_data (f : FilePair) (h0 : f.stream.record_size = 0) (tape : List (ℕ × UInt8)) :
    Tape.project f.data (tape.filter f.owns) = Tape.project f.data tape :=
  Tape.project_filter (by simp [owns, h0]) tape

lemma Kept.content_index (h : f.Kept w) : w.content f.index = f.stream.index := by
  rw [World.content, ← f.project_index, h.tape, (Stream.project_tape h.ne f.stream).1]

lemma Kept.content_data (h : f.Kept w) (h0 : f.stream.record_size = 0) :
    w.content f.data = f.stream.dataFile := by
  rw [World.content, ← f.project_data h0, h.tape, (Stream.project_tape h.ne f.stream).2]

/-- The index file at an earlier moment is a cut of the stream's own tape. -/
lemma Kept.contentAt_index (h : f.Kept w) (p : ℕ) :
    w.contentAt p f.index = Tape.project f.index
      ((f.stream.tape f.index f.data).take (Tape.shown f.owns w.tape p)) := by
  rw [World.contentAt, ← f.project_index, Tape.filter_take, h.tape]

lemma Kept.contentAt_data (h : f.Kept w) (h0 : f.stream.record_size = 0) (p : ℕ) :
    w.contentAt p f.data = Tape.project f.data
      ((f.stream.tape f.index f.data).take (Tape.shown f.owns w.tape p)) := by
  rw [World.contentAt, ← f.project_data h0, Tape.filter_take, h.tape]

lemma Kept.contentAt_index_prefix (h : f.Kept w) (p : ℕ) :
    w.contentAt p f.index <+: f.stream.index := by
  rw [← h.content_index]
  exact Tape.project_mono _ (List.take_prefix _ _)

lemma Kept.contentAt_data_prefix (h : f.Kept w) (h0 : f.stream.record_size = 0) (p : ℕ) :
    w.contentAt p f.data <+: f.stream.dataFile := by
  rw [← h.content_data h0]
  exact Tape.project_mono _ (List.take_prefix _ _)

/-! ### Change -/

/-- Whatever is appended to other files leaves the pair as it is. -/
lemma Kept.grow (h : f.Kept w) {t : List (ℕ × UInt8)} (ht : w'.tape = w.tape ++ t)
    (hi : w.inodes ≤ w'.inodes) (hother : ∀ e ∈ t, f.owns e = false) : f.Kept w' where
  ne := h.ne
  index_lt := h.index_lt.trans_le hi
  data_lt h0 := (h.data_lt h0).trans_le hi
  tape := by
    have hnil : t.filter f.owns = [] := List.filter_eq_nil_iff.mpr fun e he => by
      simp [hother e he]
    rw [ht, List.filter_append, hnil, List.append_nil, h.tape]

/-- The blocks of a record belong to the pair. -/
lemma owns_blocks {r : Record} {e : ℕ × UInt8}
    (he : e ∈ StreamWriter.blocks f.stream f.index f.data r) : f.owns e = true := by
  rcases List.mem_append.mp he with he | he
  · by_cases h0 : f.stream.record_size = 0
    · obtain ⟨b, -, rfl⟩ := List.mem_map.mp he
      simp [owns, h0]
    · simp [Stream.dataBlock, h0] at he
  · obtain ⟨b, -, rfl⟩ := List.mem_map.mp he
    simp [owns]

/-- The pair grows by the record its writer appends. -/
lemma Kept.push {r : Record} (h : f.Kept w)
    (e : w.Extends w' (StreamWriter.blocks f.stream f.index f.data r)) : (f.push r).Kept w' where
  ne := h.ne
  index_lt := by rw [e.inodes]; exact h.index_lt
  data_lt h0 := by rw [e.inodes]; exact h.data_lt h0
  tape := by
    have hall : (StreamWriter.blocks f.stream f.index f.data r).filter f.owns =
        StreamWriter.blocks f.stream f.index f.data r :=
      List.filter_eq_self.mpr fun e he => owns_blocks he
    have howns : (f.push r).owns = f.owns := rfl
    rw [howns, e.tape, List.filter_append, hall, h.tape]
    exact (f.stream.tape_push f.index f.data r).symm

/-- Pairs that share no file. -/
def Apart (f g : FilePair) : Prop := ∀ e, f.owns e = true → g.owns e = false

instance : Std.Symm Apart where
  symm f g h e he := by
    by_contra hf
    rw [h e (by simpa using hf)] at he
    exact Bool.noConfusion he

/-- Nothing that was handed out before belongs to a kept pair of a later world. -/
lemma Kept.not_owns (h : f.Kept w) {e : ℕ × UInt8} (he : w.inodes ≤ e.1) :
    f.owns e = false := by
  refine owns_false_iff.mpr ⟨?_, fun h0 => ?_⟩
  · have := h.index_lt
    omega
  · have := h.data_lt h0
    omega

/-- New files leave the pair as it is. -/
lemma Kept.adds (h : f.Kept w) (ha : w.Adds w.inodes w') : f.Kept w' := by
  obtain ⟨t, ht, hn⟩ := ha.tape
  exact h.grow ht ha.inodes fun e he => h.not_owns (hn e he)

lemma Linked.adds (hl : f.Linked w) (hk : f.Kept w) (ha : w.Adds w.inodes w') : f.Linked w' where
  index p := by
    rw [← hl.index p]
    exact ⟨ha.files p _ hk.index_lt, ha.lookup p _⟩
  data h0 := ha.lookup _ _ (hl.data h0)

lemma Linked.extends {t : List (ℕ × UInt8)} (hl : f.Linked w) (h : w.Extends w' t) :
    f.Linked w' :=
  ⟨fun p => by rw [h.tree]; exact hl.index p, fun h0 => by rw [h.tree]; exact hl.data h0⟩

/-! ### A new pair -/

/-- The pair a successful `reopenFile` opens. -/
def ofOpened (s : StreamWriter) (w : World) (time_ns : UInt64) (records : List Record)
    (q : Path) (leaf : Bytes) : FilePair :=
  ⟨s.stream time_ns records, w.inodes, w.inodes + 1, q, leaf⟩

variable {host : Host} {s s' : StreamWriter} {time_ns : UInt64} {records : List Record}
  {q : Path} {leaf : Bytes}

/-- Every byte of a stream's tape belongs to the pair that stores it. -/
lemma owns_tape {e : ℕ × UInt8} (he : e ∈ f.stream.tape f.index f.data) : f.owns e = true := by
  have hdata : ∀ {bs : Bytes}, (f.stream.record_size ≠ 0 → bs = []) →
      e ∈ Tape.tag f.data bs → f.owns e = true := by
    intro bs hbs he
    by_cases h0 : f.stream.record_size = 0
    · obtain ⟨b, -, rfl⟩ := List.mem_map.mp he
      simp [owns, h0]
    · rw [hbs h0] at he
      simp at he
  have hindex : ∀ {bs : Bytes}, e ∈ Tape.tag f.index bs → f.owns e = true := by
    intro bs he
    obtain ⟨b, -, rfl⟩ := List.mem_map.mp he
    simp [owns]
  rcases List.mem_append.mp he with he | he
  · exact hindex he
  · rcases List.mem_append.mp he with he | he
    · exact hdata (fun h0 => by simp [Stream.dataHeader, h0]) he
    · obtain ⟨x, -, hx⟩ := List.mem_flatMap.mp he
      rcases List.mem_append.mp hx with hx | hx
      · exact hdata (fun h0 => by simp [Stream.dataBlock, h0]) hx
      · exact hindex hx

lemma kept_ofOpened (h : StreamWriter.Opened host s s' w w' time_ns records q leaf) :
    (ofOpened s w time_ns records q leaf).Kept w' where
  ne := Nat.ne_of_lt (Nat.lt_succ_self _)
  index_lt := h.inodes_lt.1
  data_lt := h.inodes_lt.2
  tape := by
    have hold : w.tape.filter (ofOpened s w time_ns records q leaf).owns = [] :=
      List.filter_eq_nil_iff.mpr fun e he => by
        have hlt := World.inode_lt_of_mem_tape he
        rw [Bool.not_eq_true, owns_false_iff]
        exact ⟨Nat.ne_of_lt hlt, fun _ => Nat.ne_of_lt (Nat.lt_succ_of_lt hlt)⟩
    have hnew : ((s.stream time_ns records).tape w.inodes (w.inodes + 1)).filter
        (ofOpened s w time_ns records q leaf).owns =
          (s.stream time_ns records).tape w.inodes (w.inodes + 1) :=
      List.filter_eq_self.mpr fun e he => owns_tape (f := ofOpened s w time_ns records q leaf) he
    rw [h.tape, List.filter_append, hold, List.nil_append, hnew]
    rfl

lemma linked_ofOpened (h : StreamWriter.Opened host s s' w w' time_ns records q leaf) :
    (ofOpened s w time_ns records q leaf).Linked w' := by
  have hold : ∀ p, w.tree.lookup p ≠ some (.file w.inodes) := fun p hp =>
    absurd (w.linked p _ hp) (lt_irrefl _)
  have hadd : ∀ p, (w.tree.add (StreamWriter.indexPath q leaf) (.file w.inodes)).lookup p =
      some (.file w.inodes) ↔ p = StreamWriter.indexPath q leaf := by
    intro p
    rw [Tree.lookup_add _ h.index_free]
    split_ifs with hp
    · simp [hp]
    · simp [hp, hold p]
  by_cases h0 : s.record_size_ = 0
  · have hfree := StreamWriter.beside_free (.file w.inodes) h.index_free (h.data_free h0)
    have htree := h.tree
    rw [if_pos h0] at htree
    constructor
    · intro p
      rw [htree, Tree.lookup_add _ hfree]
      split_ifs with hp
      · subst hp
        simp [ofOpened, indexPath, (StreamWriter.indexPath_ne_dataPath q leaf).symm]
      · exact hadd p
    · intro _
      rw [htree, Tree.lookup_add _ hfree]
      simp [ofOpened, dataPath]
  · have htree := h.tree
    rw [if_neg h0] at htree
    exact ⟨fun p => by rw [htree]; exact hadd p, fun h => absurd h h0⟩

/-- Opening a pair only adds files. -/
lemma adds_ofOpened (h : StreamWriter.Opened host s s' w w' time_ns records q leaf) :
    w.Adds w.inodes w' := by
  have hone := World.adds_create (w := w) le_rfl (StreamWriter.indexPath q leaf)
  have htape : ∃ t, w'.tape = w.tape ++ t ∧ ∀ e ∈ t, w.inodes ≤ e.1 := by
    refine ⟨_, h.tape, fun e he => ?_⟩
    have := owns_iff.mp (owns_tape (f := ofOpened s w time_ns records q leaf) he)
    rcases this with he | ⟨-, he⟩
    · exact he.ge
    · exact (Nat.le_succ _).trans he.ge
  have htree : w'.tree = if s.record_size_ = 0 then
      ((w.create (StreamWriter.indexPath q leaf)).create (StreamWriter.dataPath q leaf)).tree
        else (w.create (StreamWriter.indexPath q leaf)).tree := h.tree
  by_cases h0 : s.record_size_ = 0
  · have htwo := hone.trans (World.adds_create (Nat.le_succ _) (StreamWriter.dataPath q leaf))
    rw [if_pos h0] at htree
    exact ⟨htape, h.inodes_lt.1.le, fun p m hp => by rw [htree]; exact htwo.lookup p m hp,
      fun p i hi hp => htwo.files p i hi (by rw [← htree]; exact hp)⟩
  · rw [if_neg h0] at htree
    exact ⟨htape, h.inodes_lt.1.le, fun p m hp => by rw [htree]; exact hone.lookup p m hp,
      fun p i hi hp => hone.files p i hi (by rw [← htree]; exact hp)⟩

/-- A new pair shares no file with an older one. -/
lemma apart_ofOpened {f : FilePair} (hk : f.Kept w) :
    f.Apart (ofOpened s w time_ns records q leaf) := by
  intro e he
  have hlt : e.1 < w.inodes := by
    rcases owns_iff.mp he with he | ⟨h0, he⟩
    · exact he ▸ hk.index_lt
    · exact he ▸ hk.data_lt h0
  exact owns_false_iff.mpr ⟨Nat.ne_of_lt hlt, fun _ => Nat.ne_of_lt (Nat.lt_succ_of_lt hlt)⟩

/-! ### Reading -/

/-- A kept and linked pair as the reader sees it. -/
lemma shows (show_ : Path → ℕ → Bytes) (overrun : Path → Bytes) (hl : f.Linked w)
    (hp : IsIndexPath f.indexPath) (hi : show_ f.indexPath f.index <+: f.stream.index)
    (hd : f.stream.record_size = 0 → show_ f.dataPath f.data <+: f.stream.dataFile) :
    StreamReader.Shows (w.view show_ overrun) f.indexPath f.stream
      (show_ f.indexPath f.index) (show_ f.dataPath f.data) where
  index := by simp only [World.view, (hl.index f.indexPath).mpr rfl]
  data h0 := by
    have hb : besideIndex f.indexPath = f.dataPath := besideIndex_indexPath hp
    simp only [World.view, hb, hl.data h0]
  index_prefix := hi
  data_prefix := hd

/-- The files as they are now. -/
lemma shows_whole (overrun : Path → Bytes) (hk : f.Kept w) (hl : f.Linked w)
    (hp : IsIndexPath f.indexPath) :
    StreamReader.Shows (w.view (fun _ i => w.content i) overrun) f.indexPath f.stream
      f.stream.index (w.content f.data) := by
  have h := shows (fun _ i => w.content i) overrun hl hp
    (by rw [hk.content_index]) (fun h0 => by rw [hk.content_data h0])
  simpa only [hk.content_index] using h

/-- **Reading a pair as it is now**: every record that has a time comes back. -/
lemma reads_whole (overrun : Path → Bytes) (hk : f.Kept w) (hl : f.Linked w) (hf : f.stream.Fits)
    (hp : IsIndexPath f.indexPath) {α : Type*} (pos : α → ℕ) (rec : α → Record)
    (xs : List α)
    (h : ∀ x ∈ xs, f.stream.records[pos x]? = some (rec x) ∧ (rec x).time_ns ≠ 0) :
    ((StreamReader.make (w.view (fun _ i => w.content i) overrun) f.indexPath).reads
      (xs.map pos)).1 = xs.map fun x => some (rec x).piece := by
  rw [StreamReader.reads_make (shows_whole overrun hk hl hp) hp hf, List.map_map]
  refine List.map_congr_left fun x hx => ?_
  obtain ⟨hr, ht⟩ := h x hx
  have hvis := StreamReader.visible_whole hf hr ht
  rw [Function.comp_apply]
  by_cases h0 : f.stream.record_size = 0
  · rw [hk.content_data h0, hvis]
  · -- without a data file its content does not matter
    unfold Stream.visible at hvis ⊢
    simp only [h0, false_implies, and_true] at hvis ⊢
    exact hvis

end FilePair

end Tracebox
