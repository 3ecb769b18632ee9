import Tracebox.Stream.FilePair

/-!
# Runs of one writer

A run is a sequence of `write` calls by a caller that goes on after errors.  It leaves a log: every
accepted record with the index file it went to.  `Books` is the invariant that ties the log to the
file system: every index file in the log belongs to a pair of files that is kept and linked, and
holds exactly the records the log has under it, in that order.  `Shelved` says so of pairs of any
streams.

A record is added to the books by `Books.append` or, with a new pair, by `Books.enter`; everything
else a writer does leaves them as they are (`Books.adds`).
-/

namespace Tracebox

open Bytes

namespace StreamWriter

variable (host : Host)

/-- The index file a writer has open. -/
def indexInode (s : StreamWriter) : ℕ := (s.index_.getD .unopened).inode

/-- A run: each accepted record with the index file it went to. -/
def run (s : StreamWriter) : List Record → World → List (ℕ × Record) × StreamWriter × World
  | [], w => ([], s, w)
  | r :: rs, w =>
      let o := s.write host r.time_ns r.data w
      let rest := run o.2.1 rs o.2.2
      ((if o.1.positive then [(o.2.1.indexInode, r)] else []) ++ rest.1, rest.2)

end StreamWriter

/-- What the writer's checks make sure of: fixed-size records have the announced size, and the end
of a data file is a 32-bit offset. -/
structure Stream.Sound (st : Stream) : Prop where
  sized : st.record_size ≠ 0 → ∀ r ∈ st.records, r.data.length = st.record_size.toNat
  offset : st.record_size = 0 → st.endOffset ≤ UINT32_MAX

/-- A sound stream under a proper name can be read back as long as its index stays small enough. -/
lemma Stream.Sound.fits {st : Stream} (h : st.Sound) (hc : st.channel.length ≤ 31)
    (h0 : (0 : UInt8) ∉ st.channel) (hi : st.record_size ≠ 0 → st.index.length < 2 ^ 32) :
    st.Fits where
  channel_le := hc
  channel_nul := h0
  sized := h.sized
  index_lt := by
    by_cases hs : st.record_size = 0
    · have h1 := Stream.length_index_le hs
      have h2 := h.offset hs
      unfold UINT32_MAX at h2
      omega
    · exact hi hs
  data_lt := by
    by_cases hs : st.record_size = 0
    · have h2 := h.offset hs
      rw [Stream.length_dataFile hs]
      unfold UINT32_MAX at h2
      omega
    · have hnil : ∀ l : List Record, l.flatMap st.dataBlock = [] := fun l => by
        simp [Stream.dataBlock, hs]
      simp [Stream.dataFile, Stream.dataHeader, hs, hnil]

lemma Stream.Sound.push {st : Stream} (h : st.Sound) {r : Record}
    (hsized : st.record_size ≠ 0 → r.data.length = st.record_size.toNat)
    (hoff : st.record_size = 0 → st.endOffset + 12 + r.data.length ≤ UINT32_MAX) :
    (st.push r).Sound where
  sized hs x hx := by
    rcases List.mem_append.mp hx with hx | hx
    · exact h.sized hs x hx
    · rw [List.mem_singleton.mp hx]
      exact hsized hs
  offset hs := by
    have := hoff hs
    rw [Stream.endOffset_push, Stream.room]
    omega

/-- Every index file of the log belongs to a pair that is kept and linked and holds the records the
log has under it; no two pairs share a file. -/
structure Shelved (w : World) (log : List (ℕ × Record)) (pairs : List FilePair) : Prop where
  kept : ∀ f ∈ pairs, f.Kept w
  linked : ∀ f ∈ pairs, f.Linked w
  records : ∀ f ∈ pairs, f.stream.records = Tape.project f.index log
  logged : ∀ e ∈ log, ∃ f ∈ pairs, f.index = e.1
  apart : pairs.Pairwise FilePair.Apart
  sound : ∀ f ∈ pairs, f.stream.Sound

/-- The log of a run and the files on disk agree. -/
structure Books (channel : Bytes) (size : UInt32) (w : World) (log : List (ℕ × Record))
    (pairs : List FilePair) : Prop where
  kept : ∀ f ∈ pairs, f.Kept w
  linked : ∀ f ∈ pairs, f.Linked w
  records : ∀ f ∈ pairs, f.stream.records = Tape.project f.index log
  logged : ∀ e ∈ log, ∃ f ∈ pairs, f.index = e.1
  apart : pairs.Pairwise FilePair.Apart
  named : ∀ f ∈ pairs, f.stream.channel = channel ∧ f.stream.record_size = size
  sound : ∀ f ∈ pairs, f.stream.Sound

namespace Books

/-- Replaces a pair by its successor. -/
def bump (i : ℕ) (r : Record) (g : FilePair) : FilePair := if g.index = i then g.push r else g

lemma index_bump (i : ℕ) (r : Record) (g : FilePair) : (bump i r g).index = g.index := by
  unfold bump
  split_ifs <;> rfl

lemma owns_bump (i : ℕ) (r : Record) (g : FilePair) : (bump i r g).owns = g.owns := by
  unfold bump
  split_ifs <;> rfl

end Books

namespace Shelved

variable {w w' : World} {log : List (ℕ × Record)} {pairs : List FilePair}

lemma empty (w : World) : Shelved w [] [] where
  kept := by simp
  linked := by simp
  records := by simp
  logged := by simp
  apart := List.Pairwise.nil
  sound := by simp

/-- New files and flushes leave the shelves as they are. -/
lemma adds (h : Shelved w log pairs) (ha : w.Adds w.inodes w') : Shelved w' log pairs :=
  { h with
    kept := fun f hf => (h.kept f hf).adds ha
    linked := fun f hf => (h.linked f hf).adds (h.kept f hf) ha }

lemma of_extends_nil (h : Shelved w log pairs) (e : w.Extends w' []) : Shelved w' log pairs :=
  h.adds (World.Adds.of_extends e (by simp))

/-- Two pairs with one index file are the same. -/
lemma eq_of_index (h : Shelved w log pairs) {f g : FilePair} (hf : f ∈ pairs) (hg : g ∈ pairs)
    (hi : f.index = g.index) : f = g := by
  by_contra hne
  have hap : f.Apart g := h.apart.forall hf hg hne
  have hout := hap (f.index, 0) (FilePair.owns_iff.mpr (Or.inl rfl))
  exact (FilePair.owns_false_iff.mp hout).1 hi

/-- **One more record in one of the pairs.** -/
lemma append (h : Shelved w log pairs) {f : FilePair} (hf : f ∈ pairs) {r : Record}
    (e : w.Extends w' (StreamWriter.blocks f.stream f.index f.data r))
    (hs : (f.stream.push r).Sound) :
    Shelved w' (log ++ [(f.index, r)]) (pairs.map (Books.bump f.index r)) := by
  have hown : ∀ g ∈ pairs, g.index = f.index → g = f := fun g hg hi => h.eq_of_index hg hf hi
  have hother : ∀ g ∈ pairs, g.index ≠ f.index → g.Kept w' := fun g hg hi => by
    refine (h.kept g hg).grow e.tape e.inodes.ge fun x hx => ?_
    have hap : f.Apart g := h.apart.forall hf hg fun he => hi (he ▸ rfl)
    exact hap x (FilePair.owns_blocks hx)
  refine ⟨?_, ?_, ?_, ?_, ?_, ?_⟩
  · intro g' hg'
    obtain ⟨g, hg, rfl⟩ := List.mem_map.mp hg'
    by_cases hi : g.index = f.index
    · rw [hown g hg hi, Books.bump, if_pos rfl]
      exact (h.kept f hf).push e
    · rw [Books.bump, if_neg hi]
      exact hother g hg hi
  · intro g' hg'
    obtain ⟨g, hg, rfl⟩ := List.mem_map.mp hg'
    have hl := (h.linked g hg).extends e
    unfold Books.bump
    split_ifs
    · exact ⟨hl.index, hl.data⟩
    · exact hl
  · intro g' hg'
    obtain ⟨g, hg, rfl⟩ := List.mem_map.mp hg'
    have hr := h.records g hg
    rw [Books.index_bump, Tape.project_append, ← hr]
    by_cases hi : g.index = f.index
    · simp [Books.bump, hi, FilePair.push, Tape.project]
    · have hi' : f.index ≠ g.index := fun he => hi he.symm
      simp [Books.bump, hi, hi', Tape.project]
  · intro x hx
    rcases List.mem_append.mp hx with hx | hx
    · obtain ⟨g, hg, hgi⟩ := h.logged x hx
      exact ⟨_, List.mem_map_of_mem hg, (Books.index_bump _ _ _).trans hgi⟩
    · rw [List.mem_singleton.mp hx]
      exact ⟨_, List.mem_map_of_mem hf, Books.index_bump _ _ _⟩
  · rw [List.pairwise_map]
    refine h.apart.imp fun hap x hx => ?_
    rw [Books.owns_bump] at hx ⊢
    exact hap x hx
  · intro g' hg'
    obtain ⟨g, hg, rfl⟩ := List.mem_map.mp hg'
    by_cases hi : g.index = f.index
    · rw [hown g hg hi, Books.bump, if_pos rfl]
      exact hs
    · rw [Books.bump, if_neg hi]
      exact h.sound g hg

/-- **A new pair**, with the records written to it at once. -/
lemma enter {host : Host} {s s' : StreamWriter} {time_ns : UInt64} {rs : List Record} {q : Path}
    {leaf : Bytes} (h : Shelved w log pairs)
    (ho : StreamWriter.Opened host s s' w w' time_ns rs q leaf)
    (hs : (s.stream time_ns rs).Sound) :
    Shelved w' (log ++ rs.map fun r => (w.inodes, r))
      (pairs ++ [FilePair.ofOpened s w time_ns rs q leaf]) := by
  have hb := h.adds (FilePair.adds_ofOpened ho)
  have hlt : ∀ f ∈ pairs, f.index < w.inodes := fun f hf => (h.kept f hf).index_lt
  have hold : ∀ i, i < w.inodes → Tape.project i (rs.map fun r => (w.inodes, r)) = [] :=
    fun i hi => Tape.project_eq_nil fun e he => by
      obtain ⟨r, -, rfl⟩ := List.mem_map.mp he
      exact Nat.ne_of_gt hi
  refine ⟨?_, ?_, ?_, ?_, ?_, ?_⟩
  · intro f hf
    rcases List.mem_append.mp hf with hf | hf
    · exact hb.kept f hf
    · rw [List.mem_singleton.mp hf]
      exact FilePair.kept_ofOpened ho
  · intro f hf
    rcases List.mem_append.mp hf with hf | hf
    · exact hb.linked f hf
    · rw [List.mem_singleton.mp hf]
      exact FilePair.linked_ofOpened ho
  · intro f hf
    rw [Tape.project_append]
    rcases List.mem_append.mp hf with hf | hf
    · rw [hold f.index (hlt f hf), List.append_nil, ← h.records f hf]
    · have hnil : Tape.project w.inodes log = [] := Tape.project_eq_nil fun e he => by
        obtain ⟨g, hg, hgi⟩ := h.logged e he
        have := hlt g hg
        omega
      rw [List.mem_singleton.mp hf]
      change rs = Tape.project w.inodes log ++ Tape.project w.inodes (Tape.tag w.inodes rs)
      rw [hnil, Tape.project_tag_self, List.nil_append]
  · intro e he
    rcases List.mem_append.mp he with he | he
    · obtain ⟨f, hf, hfi⟩ := h.logged e he
      exact ⟨f, List.mem_append_left _ hf, hfi⟩
    · obtain ⟨r, -, rfl⟩ := List.mem_map.mp he
      exact ⟨_, List.mem_append_right _ (List.mem_singleton_self _), rfl⟩
  · refine List.pairwise_append.mpr ⟨h.apart, List.pairwise_singleton _ _, fun f hf g hg => ?_⟩
    rw [List.mem_singleton.mp hg]
    exact FilePair.apart_ofOpened (h.kept f hf)
  · intro f hf
    rcases List.mem_append.mp hf with hf | hf
    · exact h.sound f hf
    · rw [List.mem_singleton.mp hf]
      exact hs

end Shelved

namespace Books

variable {channel : Bytes} {size : UInt32} {w w' : World} {log : List (ℕ × Record)}
  {pairs : List FilePair}

lemma shelved (h : Books channel size w log pairs) : Shelved w log pairs :=
  ⟨h.kept, h.linked, h.records, h.logged, h.apart, h.sound⟩

/-- Books are the shelves of one stream. -/
lemma of_shelved (h : Shelved w log pairs)
    (hn : ∀ f ∈ pairs, f.stream.channel = channel ∧ f.stream.record_size = size) :
    Books channel size w log pairs :=
  ⟨h.kept, h.linked, h.records, h.logged, h.apart, hn, h.sound⟩

lemma empty (channel : Bytes) (size : UInt32) (w : World) : Books channel size w [] [] :=
  of_shelved (.empty w) (by simp)

/-- New files and flushes leave the books as they are. -/
lemma adds (h : Books channel size w log pairs) (ha : w.Adds w.inodes w') :
    Books channel size w' log pairs := of_shelved (h.shelved.adds ha) h.named

lemma of_extends_nil (h : Books channel size w log pairs) (e : w.Extends w' []) :
    Books channel size w' log pairs := of_shelved (h.shelved.of_extends_nil e) h.named

/-- **One more record in a pair of the books.** -/
lemma append (h : Books channel size w log pairs) {f : FilePair} (hf : f ∈ pairs) {r : Record}
    (e : w.Extends w' (StreamWriter.blocks f.stream f.index f.data r))
    (hs : (f.stream.push r).Sound) :
    Books channel size w' (log ++ [(f.index, r)]) (pairs.map (bump f.index r)) := by
  refine of_shelved (h.shelved.append hf e hs) fun g' hg' => ?_
  obtain ⟨g, hg, rfl⟩ := List.mem_map.mp hg'
  have hn := h.named g hg
  unfold bump
  split_ifs
  · exact hn
  · exact hn

/-- **A new pair in the books**, with the records written to it at once. -/
lemma enter {host : Host} {s s' : StreamWriter} {time_ns : UInt64} {rs : List Record} {q : Path}
    {leaf : Bytes} (h : Books s.name_ s.record_size_ w log pairs)
    (ho : StreamWriter.Opened host s s' w w' time_ns rs q leaf)
    (hs : (s.stream time_ns rs).Sound) :
    Books s.name_ s.record_size_ w' (log ++ rs.map fun r => (w.inodes, r))
      (pairs ++ [FilePair.ofOpened s w time_ns rs q leaf]) := by
  refine of_shelved (h.shelved.enter ho hs) fun f hf => ?_
  rcases List.mem_append.mp hf with hf | hf
  · exact h.named f hf
  · rw [List.mem_singleton.mp hf]
    exact ⟨rfl, rfl⟩

end Books

/-- The books of a writer that has a pair of them open. -/
structure StreamWriter.Ledger (s : StreamWriter) (channel : Bytes) (size : UInt32) (w : World)
    (log : List (ℕ × Record)) (pairs : List FilePair) : Prop where
  books : Books channel size w log pairs
  current : ∃ f ∈ pairs, s.Writes f.stream f.index f.data

namespace StreamWriter

variable {host : Host} {s s' : StreamWriter} {channel : Bytes} {size : UInt32} {w w' : World}
  {log : List (ℕ × Record)} {pairs : List FilePair}

lemma sound_single {r : Record} (h0 : s.record_size_ = 0) (hlen : r.data.length + 61 ≤ UINT32_MAX)
    (time_ns : UInt64) : (s.stream time_ns [r]).Sound where
  sized hs := absurd h0 hs
  offset _ := by
    simp only [stream, Stream.endOffset, Stream.room, sizeofLogFileHeader, List.map_cons,
      List.map_nil, List.sum_cons, List.sum_nil]
    omega

lemma Writes.indexInode {st : Stream} {i d : ℕ} (h : s.Writes st i d) : s.indexInode = i := by
  rw [StreamWriter.indexInode, h.index]
  rfl

/-- Opening the first pair. -/
lemma openFile_ledger {request : LogRequest} {v : ℤ}
    (h : s.openFile host request w = (.ret v, s', w')) (hv : 0 < v)
    (hnul : (0 : UInt8) ∉ request.channel) :
    ∃ pairs, s'.Ledger request.channel request.size w' [] pairs := by
  obtain ⟨-, q, leaf, ho⟩ := reopenFile_pos h hv hnul
  have hs : (stream { s with name_ := request.channel, record_size_ := request.size }
      request.time_ns []).Sound := ⟨fun _ => by simp [stream], fun _ => by
    simp [stream, Stream.endOffset, sizeofLogFileHeader, UINT32_MAX]⟩
  have hb := (Books.empty request.channel request.size w).enter ho hs
  exact ⟨_, ⟨hb, _, List.mem_singleton_self _, ho.writes⟩⟩

/-- **A successful write** enters exactly its record in the books. -/
lemma write_ledger {r : Record} {v : ℤ} (hl : s.Ledger channel size w log pairs)
    (hnul : (0 : UInt8) ∉ channel) (hlen : r.data.length + 61 ≤ UINT32_MAX)
    (h : s.write host r.time_ns r.data w = (.ret v, s', w')) (hv : 0 < v) :
    ∃ pairs', s'.Ledger channel size w' (log ++ [(s'.indexInode, r)]) pairs' ∧
      s.indexInode ≤ s'.indexInode ∧ ∀ f ∈ pairs, ∃ g ∈ pairs', g.index = f.index := by
  obtain ⟨f, hf, hw⟩ := hl.current
  obtain ⟨hn, hsz⟩ := hl.books.named f hf
  have hk := hl.books.kept f hf
  rcases write_pos hw hk.index_lt hk.data_lt (hn ▸ hnul) hlen h hv with
    ⟨h1, h2, h3, h4, -, -⟩ | ⟨h0, -, q, leaf, ho⟩
  · have hb := hl.books.append hf h2 ((hl.books.sound f hf).push h4 fun h0 => by
      have := h3 h0
      omega)
    refine ⟨pairs.map (Books.bump f.index r), ⟨?_, f.push r, ?_, h1⟩,
      (hw.indexInode.trans h1.indexInode.symm).le,
      fun g hg => ⟨_, List.mem_map_of_mem hg, Books.index_bump _ _ _⟩⟩
    · rw [h1.indexInode]
      exact hb
    · have hbump : Books.bump f.index r f = f.push r := if_pos rfl
      rw [← hbump]
      exact List.mem_map_of_mem hf
  · obtain rfl : channel = s.name_ := hn.symm.trans hw.name.symm
    obtain rfl : size = s.record_size_ := hsz.symm.trans hw.size.symm
    have hb := hl.books.enter ho (sound_single (hw.size.trans h0) hlen r.time_ns)
    refine ⟨_, ⟨?_, FilePair.ofOpened s w r.time_ns [r] q leaf,
      List.mem_append_right pairs (List.mem_singleton_self _), ho.writes⟩, ?_,
      fun g hg => ⟨g, List.mem_append_left _ hg, rfl⟩⟩
    · rw [ho.writes.indexInode]
      exact hb
    · rw [hw.indexInode, ho.writes.indexInode]
      exact hk.index_lt.le

/-- A log has at most one entry for each call. -/
lemma length_run_le (host : Host) (s : StreamWriter) (records : List Record) (w : World) :
    (s.run host records w).1.length ≤ records.length := by
  induction records generalizing s w with
  | nil => simp [run]
  | cons r rs ih =>
      have := ih (s.write host r.time_ns r.data w).2.1 (s.write host r.time_ns r.data w).2.2
      simp only [run, List.length_append, List.length_cons]
      split_ifs <;> simp <;> omega

/-- **A run without a failed write**: the log has every record, and the books balance.  The index
files of the run are numbered upwards, and none of the pairs there were at the start is lost. -/
lemma run_ledger {records : List Record} (hl : s.Ledger channel size w log pairs)
    (hnul : (0 : UInt8) ∉ channel) (hlen : ∀ r ∈ records, r.data.length + 61 ≤ UINT32_MAX)
    {log' : List (ℕ × Record)} (hrun : s.run host records w = (log', s', w'))
    (hall : log'.map Prod.snd = records) :
    ∃ pairs', s'.Ledger channel size w' (log ++ log') pairs' ∧
      s.indexInode ≤ s'.indexInode ∧
      (∀ e ∈ log', s.indexInode ≤ e.1 ∧ e.1 ≤ s'.indexInode) ∧
      ∀ f ∈ pairs, ∃ g ∈ pairs', g.index = f.index := by
  induction records generalizing s w log log' pairs with
  | nil =>
      cases hrun
      exact ⟨pairs, by simpa using hl, le_rfl, by simp, fun f hf => ⟨f, hf, rfl⟩⟩
  | cons r rs ih =>
      obtain ⟨⟨out, s₁, w₁⟩, ho⟩ : ∃ o, o = s.write host r.time_ns r.data w :=
        ⟨_, rfl⟩
      obtain ⟨⟨rest, s₂, w₂⟩, hr⟩ : ∃ o, o = s₁.run host rs w₁ := ⟨_, rfl⟩
      simp only [run, ← ho, ← hr, Prod.mk.injEq] at hrun
      obtain ⟨rfl, rfl, rfl⟩ := hrun
      by_cases hpos : out.positive = true
      · obtain ⟨v, rfl, hv⟩ := Outcome.positive_iff.mp hpos
        obtain ⟨pairs₁, hl₁, hle, hkeep⟩ :=
          write_ledger hl hnul (hlen r List.mem_cons_self) ho.symm hv
        rw [if_pos hpos] at hall ⊢
        obtain ⟨pairs₂, hl₂, hle₂, hbetween, hkeep₂⟩ := ih hl₁
          (fun x hx => hlen x (List.mem_cons_of_mem _ hx)) hr.symm (by simpa using hall)
        refine ⟨pairs₂, by simpa using hl₂, hle.trans hle₂, ?_, fun f hf => ?_⟩
        · intro e he
          rcases List.mem_cons.mp he with rfl | he
          · exact ⟨hle, hle₂⟩
          · exact ⟨hle.trans (hbetween e he).1, (hbetween e he).2⟩
        · obtain ⟨g, hg, hgi⟩ := hkeep f hf
          obtain ⟨g', hg', hgi'⟩ := hkeep₂ g hg
          exact ⟨g', hg', hgi'.trans hgi⟩
      · -- a rejected record leaves the log one record short
        have hlength := congrArg List.length hall
        have hrest := length_run_le host s₁ rs w₁
        rw [← hr] at hrest
        simp only [hpos, if_false, Bool.false_eq_true, List.nil_append, List.length_map,
          List.length_cons] at hlength hrest
        omega

end StreamWriter

end Tracebox
