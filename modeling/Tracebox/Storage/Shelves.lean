import Tracebox.Storage.Retry
import Tracebox.Stream.Limits
import Tracebox.Stream.Pairing

/-!
# The files behind a folder

A folder keeps one writer for each channel.  A writer is closed, or it has a pair of files open that
lies in the folder's directory and belongs to its channel.  No two channels share a pair, because a
pair carries the name of its channel.

* `LogRequest.Proper` — a request that can be stored and found again.
* `write_cases` — what one call of `StreamWriter::write` does to the pair that is open.
* `Stocked`, `Wrote` — the writers of a folder, and what a write to a channel comes to.
* `writeChannel_wrote` — **a write to a folder appends to the pair of its channel, begins a new
  pair or does nothing**.
* `Wrote.shelved`, `Wrote.placed` — the pairs stay on their shelves and where they belong.
-/

namespace Tracebox

open Bytes

/-- What a request asks to store. -/
def LogRequest.record (request : LogRequest) : Record := ⟨request.time_ns, request.data⟩

/-- A request that a reader can find again: it has a time, less than `2 ^ 30` bytes, and a channel
name that fits a header and does not get in the way of a path. -/
structure LogRequest.Proper (request : LogRequest) : Prop where
  time : request.time_ns ≠ 0
  data : request.data.length < 2 ^ 30
  short : request.channel.length ≤ 31
  nul : (0 : UInt8) ∉ request.channel
  slash : (47 : UInt8) ∉ request.channel
  backslash : (92 : UInt8) ∉ request.channel
  idx : find dotIdx request.channel = none

/-! ## One writer -/

namespace StreamWriter

variable {host : Host} {s s' : StreamWriter} {w w' : World} {r : Record}

/-- **What a write does** on a host that does not fail.  It is refused and appends nothing, it
appends to the pair that is open, or it begins a new one. -/
lemma write_cases (hn : host.NeverFails) {f : FilePair} (hk : f.Kept w)
    (hs : s.Writes f.stream f.index f.data) (hnul : (0 : UInt8) ∉ f.stream.channel)
    (hlen : r.data.length < 2 ^ 30) {out : Outcome}
    (h : s.write host r.time_ns r.data w = (out, s', w')) :
    (out.positive = false ∧ w.Extends w' [] ∧ (s' = s ∨ live s'.index_ = none)) ∨
    (out.positive = true ∧ s'.Writes (f.stream.push r) f.index f.data ∧
      w.Extends w' (blocks f.stream f.index f.data r) ∧
      (f.stream.record_size = 0 → f.stream.endOffset + 24 + r.data.length ≤ UINT32_MAX) ∧
      (f.stream.record_size ≠ 0 → r.data.length = f.stream.record_size.toNat) ∧
      s'.folder_ = s.folder_ ∧ s'.fault_injector_ = s.fault_injector_) ∨
    (out.positive = true ∧ f.stream.record_size = 0 ∧
      UINT32_MAX < f.stream.endOffset + 24 + r.data.length ∧
      ∃ q leaf, Opened host s s' w w' r.time_ns [r] q leaf) := by
  have hmax : r.data.length + 61 ≤ UINT32_MAX := by
    unfold UINT32_MAX
    omega
  by_cases hpos : out.positive = true
  · right
    obtain ⟨v, rfl, hv⟩ := Outcome.positive_iff.mp hpos
    rcases write_pos hs hk.index_lt hk.data_lt hnul hmax h hv with
      hkept | ⟨h0, hbig, ho⟩
    · exact Or.inl ⟨hpos, hkept⟩
    · exact Or.inr ⟨hpos, h0, hbig, ho⟩
  · left
    have hlive : live s.index_ = some ⟨f.index, true⟩ := by rw [hs.index]; rfl
    have e₀ := now_extends host w
    have hk₀ : f.Kept (w.now host).2 := ⟨hk.ne, hk.index_lt, hk.data_lt, hk.tape⟩
    by_cases h0 : f.stream.record_size = 0
    · have hwrite : s.write host r.time_ns r.data w =
          s.writeVariable host (s.flushDue host w) r.time_ns r.data (w.now host).2 := by
        simp only [write, hlive, hs.size, h0, ne_eq, not_true_eq_false, if_false]
      by_cases hrefused : s.rollover r.data = true ∧ ¬ s.Openable host r.time_ns w.tree
      · rw [hwrite] at h
        obtain ⟨hout, hindex, -, e⟩ := writeVariable_refused (w := (w.now host).2)
          hs h0 hrefused.1
          hrefused.2 h
        exact ⟨hout, e₀.trans e, Or.inr hindex⟩
      · have hlim : if s.rollover r.data then r.data.length + 122 < 2 ^ 31 ∨
            (2 ^ 32 < r.data.length + 122 ∧ r.data.length + 61 < 2 ^ 32)
            else r.data.length + 24 < 2 ^ 31 := by
          split_ifs <;> omega
        obtain ⟨v, s₁, w₁, hv, hpos'⟩ :=
          writeVariable_accepted (w := (w.now host).2) hn hk₀ hs h0
          (by rw [hs.name]; exact hnul)
          (fun hroll => not_not.mp fun hno => hrefused ⟨hroll, hno⟩) hlim (s.flushDue host w)
        rw [← hwrite, h] at hv
        cases hv
        exact absurd (Outcome.positive_iff.mpr ⟨v, rfl, hpos'⟩) hpos
    · have hwrite : s.write host r.time_ns r.data w =
          s.writeFixed host ⟨f.index, true⟩ (s.flushDue host w) r.time_ns r.data
            (w.now host).2 := by
        simp only [write, hlive, hs.size, h0, ne_eq, not_false_eq_true, if_true]
      obtain ⟨hfit, hother⟩ := writeFixed_reliable hn hs h0 (w := (w.now host).2) hk.index_lt
        (s.flushDue host w) r
      rw [hwrite] at h
      by_cases hsize : r.data.length = f.stream.record_size.toNat
      · -- a record of the right size is accepted
        obtain ⟨w₁, hf, -⟩ := hfit hsize
        rw [hf] at h
        cases h
        refine absurd (Outcome.positive_iff.mpr ⟨_, rfl, toInt_pos ?_⟩) hpos
        simp only [sizeofFixedRecordIdx]
        omega
      · rw [hother hsize] at h
        cases h
        exact ⟨by decide, e₀, Or.inl rfl⟩

/-- A new pair of a channel without slashes lies directly in the writer's folder, under one of the
names the channel can have. -/
lemma Opened.place_eq {time_ns : UInt64} {rs : List Record} {q : Path} {leaf : Bytes}
    (h : Opened host s s' w w' time_ns rs q leaf) (h0 : (0 : UInt8) ∉ s.name_)
    (h47 : (47 : UInt8) ∉ s.name_) :
    q = s.folder_ ∧ Candidate (s.fileName host time_ns) leaf := by
  obtain ⟨file_name, hc, hres⟩ := h.place
  have hnul : (0 : UInt8) ∉ file_name := notMem_candidate (by decide) (by decide) h0 hc
  have hslash : (47 : UInt8) ∉ file_name := notMem_candidate (by decide) (by decide) h47 hc
  have hunder : (95 : UInt8) ∈ file_name := by
    rcases hc with rfl | ⟨k, rfl⟩ <;> simp [fileName]
  have hlex := Tree.resolve_lexical hres
  have hrel0 : (0 : UInt8) ∉ file_name ++ dotIdx := fun hm =>
    (List.mem_append.mp hm).elim hnul notMem_dotIdx.1
  have hrel47 : (47 : UInt8) ∉ file_name ++ dotIdx := fun hm =>
    (List.mem_append.mp hm).elim hslash notMem_dotIdx.2
  rw [Path.lexical, cString_of_notMem hrel0, splitOn_of_notMem hrel47, List.foldl_cons,
    List.foldl_nil, Path.enter_of_mem (List.mem_append_left _ hunder)] at hlex
  obtain ⟨hq, hlast⟩ := List.append_inj' hlex rfl
  have hleaf : leaf = file_name := List.append_cancel_right (List.singleton_inj.mp hlast)
  exact ⟨hq, hleaf ▸ hc⟩

/-- No candidate brings a `.idx` of its own. -/
lemma find_candidate {time_ns : UInt64} {name : Bytes} (hidx : find dotIdx s.name_ = none)
    (hc : Candidate (s.fileName host time_ns) name) : find dotIdx name = none := by
  have hplain : ∀ bs : Bytes, (∀ b ∈ bs, isDigit b = true ∨ b = 95) →
    find dotIdx bs = none := by
    intro bs hbs
    refine find_of_notMem (b := 46) (by simp [dotIdx_eq]) fun hm => ?_
    rcases hbs 46 hm with h | h
    · simp [isDigit] at h
    · simp at h
  have hseam : ∀ ys : Bytes, ∀ b ∈ (95 :: ys).head?, b ∉ dotIdx := by
    rintro ys b ⟨⟩
    rw [dotIdx_eq]
    decide
  have hname : find dotIdx (95 :: s.name_) = none := by
    have hfirst : ¬ dotIdx <+: 95 :: s.name_ := by
      rw [dotIdx_eq]
      intro hp
      exact absurd (List.cons_prefix_cons.mp hp).1 (by decide)
    rw [find, if_neg hfirst, hidx, Option.map_none]
  have htail : ∀ n, find dotIdx (95 :: toDec n) = none := fun n => hplain _ fun b hb => by
    rcases List.mem_cons.mp hb with rfl | hb
    · exact Or.inr rfl
    · exact Or.inl (isDigit_of_mem_toDec hb)
  have hbase : find dotIdx (s.fileName host time_ns) = none := by
    have hh := (host.cal.localtime time_ns).hour_le
    have hm := (host.cal.localtime time_ns).min_le
    have hsec := (host.cal.localtime time_ns).sec_le
    have hclock : find dotIdx (pad2 (host.cal.localtime time_ns).tm_hour ++
        pad2 (host.cal.localtime time_ns).tm_min ++ pad2 (host.cal.localtime time_ns).tm_sec) =
          none := hplain _ fun b hb => by
      simp only [List.mem_append] at hb
      rcases hb with (hb | hb) | hb
      · exact Or.inl (isDigit_of_mem_pad2 (by omega) hb)
      · exact Or.inl (isDigit_of_mem_pad2 (by omega) hb)
      · exact Or.inl (isDigit_of_mem_pad2 (by omega) hb)
    have hsplit : s.fileName host time_ns = (pad2 (host.cal.localtime time_ns).tm_hour ++
        pad2 (host.cal.localtime time_ns).tm_min ++ pad2 (host.cal.localtime time_ns).tm_sec) ++
          95 :: s.name_ ++ 95 :: toDec s.record_size_.toNat := by
      simp [fileName]
    rw [hsplit, find_append_eq_none_iff dotIdx_ne_nil (hseam _),
      find_append_eq_none_iff dotIdx_ne_nil (hseam _)]
    exact ⟨⟨hclock, hname⟩, htail _⟩
  rcases hc with rfl | ⟨k, rfl⟩
  · exact hbase
  · rw [find_append_eq_none_iff dotIdx_ne_nil (hseam _)]
    exact ⟨hbase, htail _⟩

end StreamWriter

/-! ## Places -/

/-- A directory that an index file can be in: the system's path, without `.idx` in it. -/
structure Path.Quiet (dir : Path) : Prop where
  canonical : ∀ c ∈ dir, c ≠ [] ∧ (47 : UInt8) ∉ c
  idx : find dotIdx dir.string = none

/-- The pair lies in the directory, its stream has a name that can be read back, its own name does
not get in the way of an identifier, and its index file is found under its path. -/
structure FilePair.Placed (dir : Path) (p : FilePair) : Prop where
  dir : p.dir = dir
  short : p.stream.channel.length ≤ 31
  nul : (0 : UInt8) ∉ p.stream.channel
  leaf : p.leaf ≠ [] ∧ (0 : UInt8) ∉ p.leaf ∧ (92 : UInt8) ∉ p.leaf
  index : IsIndexPath p.indexPath

lemma Path.Quiet.concat {dir : Path} (h : dir.Quiet) {c : Bytes} (hne : c ≠ [])
    (hslash : (47 : UInt8) ∉ c) (hidx : find dotIdx c = none) : Path.Quiet (dir ++ [c]) where
  canonical d hd := by
    rcases List.mem_append.mp hd with hd | hd
    · exact h.canonical d hd
    · rw [List.mem_singleton.mp hd]
      exact ⟨hne, hslash⟩
  idx := by
    have hseam : ∀ b ∈ (47 :: c : Bytes).head?, b ∉ dotIdx := by
      rintro b ⟨⟩
      rw [StreamWriter.dotIdx_eq]
      decide
    have hfirst : ¬ dotIdx <+: 47 :: c := by
      rw [StreamWriter.dotIdx_eq]
      intro hp
      exact absurd (List.cons_prefix_cons.mp hp).1 (by decide)
    rw [Path.string_append, Path.string_singleton,
      find_append_eq_none_iff dotIdx_ne_nil hseam]
    exact ⟨h.idx, by rw [find, if_neg hfirst, hidx, Option.map_none]⟩

/-- The directory of a day. -/
lemma Path.Quiet.day {root : Path} (h : root.Quiet) (day : ℕ) :
    Path.Quiet (root ++ [toDec day]) :=
  h.concat (toDec_ne_nil day) (notMem_toDec (by decide) day)
    (find_of_notMem (b := 46) (by simp [StreamWriter.dotIdx_eq]) (notMem_toDec (by decide) day))

namespace FilePair

variable {host : Host} {s s' : StreamWriter} {w w' : World} {dir : Path}

/-- **A new pair is where it belongs.** -/
lemma placed_ofOpened {time_ns : UInt64} {rs : List Record} {q : Path} {leaf : Bytes}
    (ho : StreamWriter.Opened host s s' w w' time_ns rs q leaf) (hdir : dir.Quiet)
    (hfolder : s.folder_ = dir) {request : LogRequest} (hr : request.Proper)
    (hname : s.name_ = request.channel) : (ofOpened s w time_ns rs q leaf).Placed dir := by
  have h0 : (0 : UInt8) ∉ s.name_ := by rw [hname]; exact hr.nul
  have h47 : (47 : UInt8) ∉ s.name_ := by rw [hname]; exact hr.slash
  obtain ⟨rfl, hc⟩ := ho.place_eq h0 h47
  have hidx := StreamWriter.find_candidate (by rw [hname]; exact hr.idx) hc
  have hslash : (47 : UInt8) ∉ leaf :=
    StreamWriter.notMem_candidate (by decide) (by decide) h47 hc
  have hunder : leaf ≠ [] := by
    rcases hc with rfl | ⟨k, rfl⟩ <;> simp [StreamWriter.fileName, StreamWriter.pad2]
  rw [hfolder]
  refine ⟨rfl, ?_, ?_, ⟨hunder, StreamWriter.notMem_candidate (by decide) (by decide) h0 hc,
    StreamWriter.notMem_candidate (by decide) (by decide) (by rw [hname]; exact hr.backslash) hc⟩,
    isIndexPath_of_find (fun c hmem => ?_) (hdir.concat hunder hslash hidx).idx⟩
  · change s.name_.length ≤ 31
    rw [hname]
    exact hr.short
  · exact h0
  · rcases List.mem_append.mp hmem with hmem | hmem
    · exact hdir.canonical c hmem
    · rw [List.mem_singleton.mp hmem]
      refine ⟨by simp [StreamWriter.dotIdx_eq], fun hm => ?_⟩
      exact (List.mem_append.mp hm).elim hslash StreamWriter.notMem_dotIdx.2

lemma Placed.push {p : FilePair} (h : p.Placed dir) (r : Record) : (p.push r).Placed dir :=
  ⟨h.dir, h.short, h.nul, h.leaf, h.index⟩

end FilePair

/-! ## A folder -/

namespace StreamWriter

/-- The writer is closed, or it writes one of the pairs, which lies in the directory and belongs to
the channel. -/
def Serves (s : StreamWriter) (dir : Path) (pairs : List FilePair) (channel : Bytes) : Prop :=
  live s.index_ = none ∨ (s.folder_ = dir ∧ ∃ p ∈ pairs, p.dir = dir ∧
    p.stream.channel = channel ∧ s.Writes p.stream p.index p.data)

lemma Serves.mono {s : StreamWriter} {dir : Path} {pairs pairs' : List FilePair} {channel : Bytes}
    (h : s.Serves dir pairs channel)
    (hp : ∀ p ∈ pairs, p.stream.channel = channel → p ∈ pairs') :
    s.Serves dir pairs' channel := by
  refine h.imp_right fun ⟨hfolder, p, hmem, hdir, hch, hw⟩ => ?_
  exact ⟨hfolder, p, hp p hmem hch, hdir, hch, hw⟩

/-- Nothing but the passing of calls happens behind an opening. -/
lemma Opened.later {host : Host} {s s' : StreamWriter} {w w₁ w' : World} {time_ns : UInt64}
    {records : List Record} {q : Path} {leaf : Bytes}
    (h : Opened host s s' w w₁ time_ns records q leaf) (e : w₁.Extends w' []) :
    Opened host s s' w w' time_ns records q leaf where
  place := h.place
  index_free := h.index_free
  data_free := h.data_free
  tree := e.tree.trans h.tree
  inodes := e.inodes.trans h.inodes
  tape := by rw [e.tape, List.append_nil, h.tape]
  writes := h.writes
  folder := h.folder
  injector := h.injector

end StreamWriter

namespace Folder

variable {host : Host} {w w' : World} {f : Folder} {dir : Path} {log : List (ℕ × Record)}
  {pairs : List FilePair}

/-- The writers of a folder in `dir` serve their channels. -/
structure Stocked (dir : Path) (pairs : List FilePair) (f : Folder) : Prop where
  folder : f.folder_ = dir
  streams : ∀ channel s, f.files_.lookup channel = some s → s.Serves dir pairs channel

lemma lookup_update_ne {s : StreamWriter} {channel c : Bytes} (h : c ≠ channel) :
    (f.update channel s).files_.lookup c = f.files_.lookup c := by
  unfold update
  dsimp only
  induction f.files_ with
  | nil => rfl
  | cons e es ih =>
      rw [List.map_cons, List.lookup_cons, List.lookup_cons, ih]
      by_cases hc : e.1 = channel
      · have hne : (c == channel) = false := by simpa using h
        have hne' : (c == e.1) = false := by simpa [hc] using h
        rw [if_pos hc, hne', hne]
      · rw [if_neg hc]

lemma lookup_added_ne {s : StreamWriter} {channel c : Bytes} (h : c ≠ channel) :
    (f.files_ ++ [(channel, s)]).lookup c = f.files_.lookup c := by
  have hne : (c == channel) = false := by simpa using h
  rw [List.lookup_append, List.lookup_cons, hne, List.lookup_nil, Option.or_none]

/-- The channel has another writer, and the pairs of the other channels are among the new ones. -/
lemma Stocked.set {f' : Folder} {pairs' : List FilePair} (h : f.Stocked dir pairs)
    (hfolder : f'.folder_ = f.folder_) {channel : Bytes} {s : StreamWriter}
    (hlook : f'.files_.lookup channel = some s)
    (hsame : ∀ c, c ≠ channel → f'.files_.lookup c = f.files_.lookup c)
    (hs : s.Serves dir pairs' channel)
    (hothers : ∀ p ∈ pairs, p.stream.channel ≠ channel → p ∈ pairs') :
    f'.Stocked dir pairs' := by
  refine ⟨hfolder.trans h.folder, fun c s' hc => ?_⟩
  by_cases heq : c = channel
  · subst heq
    rw [hlook, Option.some.injEq] at hc
    rwa [← hc]
  · rw [hsame c heq] at hc
    exact (h.streams c s' hc).mono fun p hp hch => hothers p hp (by rw [hch]; exact heq)

/-- **What a write to a channel comes to**, with the world and the pairs it leaves: nothing, one
more record in the pair its writer has open, or a new pair, which holds the record when the call
reports it. -/
inductive Wrote (host : Host) (f : Folder) (request : LogRequest) (w : World)
    (pairs : List FilePair) (out : Outcome) (w' : World) : List FilePair → Prop where
  | refused (hout : out.positive = false) (e : w.Extends w' []) :
      Wrote host f request w pairs out w' pairs
  | appended {s : StreamWriter} {p : FilePair}
      (hout : out.positive = true) (hlook : f.files_.lookup request.channel = some s)
      (hp : p ∈ pairs) (hdir : p.dir = f.folder_) (hchannel : p.stream.channel = request.channel)
      (hs : s.Writes p.stream p.index p.data)
      (e : w.Extends w' (StreamWriter.blocks p.stream p.index p.data request.record))
      (hoffset : p.stream.record_size = 0 →
        p.stream.endOffset + 24 + request.data.length ≤ UINT32_MAX)
      (hsize : p.stream.record_size ≠ 0 →
        request.data.length = p.stream.record_size.toNat) :
      Wrote host f request w pairs out w' (pairs.map (Books.bump p.index request.record))
  | opened {s s' : StreamWriter} {q : Path} {leaf : Bytes}
      (hname : s.name_ = request.channel) (hfolder : s.folder_ = f.folder_)
      (ho : StreamWriter.Opened host s s' w w' request.time_ns
        (if out.positive then [request.record] else []) q leaf)
      (hsize : out.positive = true → s.record_size_ ≠ 0 →
        request.data.length = s.record_size_.toNat) :
      Wrote host f request w pairs out w' (pairs ++ [FilePair.ofOpened s w request.time_ns
        (if out.positive then [request.record] else []) q leaf])

/-- A write to a writer that serves its channel. -/
lemma serves_wrote (hn : host.NeverFails) (hk : ∀ p ∈ pairs, p.Kept w)
    (hi : ∀ p ∈ pairs, ∀ g ∈ pairs, p.index = g.index → p = g) (hf : f.Stocked dir pairs)
    {request : LogRequest} (hr : request.Proper) {s s' : StreamWriter}
    (hlook : f.files_.lookup request.channel = some s) {out : Outcome}
    (h : s.write host request.time_ns request.data w = (out, s', w')) :
    ∃ pairs', Wrote host f request w pairs out w' pairs' ∧
      s'.Serves dir pairs' request.channel ∧
      ∀ p ∈ pairs, p.stream.channel ≠ request.channel → p ∈ pairs' := by
  rcases hf.streams _ _ hlook with hdead | ⟨hsdir, p, hmem, hdir, hch, hw⟩
  · simp only [StreamWriter.write, hdead] at h
    cases h
    exact ⟨pairs, .refused (by decide) (World.Extends.of_eq rfl rfl rfl), Or.inl hdead,
      fun _ hp _ => hp⟩
  rcases StreamWriter.write_cases (r := request.record) hn (hk p hmem) hw
      (by rw [hch]; exact hr.nul) hr.data h with
    ⟨hout, e, hs'⟩ | ⟨hout, hw', e, hoffset, hsize, hfolder, -⟩ | ⟨hout, h0, -,
      q, leaf, ho⟩
  · refine ⟨pairs, .refused hout e, ?_, fun _ hp _ => hp⟩
    rcases hs' with rfl | hdead
    · exact Or.inr ⟨hsdir, p, hmem, hdir, hch, hw⟩
    · exact Or.inl hdead
  · have hbump : Books.bump p.index request.record p = p.push request.record := if_pos rfl
    refine ⟨_, .appended hout hlook hmem (hdir.trans hf.folder.symm) hch hw e hoffset hsize,
      Or.inr ⟨hfolder.trans hsdir, p.push request.record, ?_, hdir, hch, hw'⟩,
        fun g hg hne => ?_⟩
    · rw [← hbump]
      exact List.mem_map_of_mem hmem
    · -- the pair of another channel has another index file
      have hindex : g.index ≠ p.index := fun heq => hne (hi g hg p hmem heq ▸ hch)
      have hsame : Books.bump p.index request.record g = g := if_neg hindex
      rw [← hsame]
      exact List.mem_map_of_mem hg
  · have hname : s.name_ = request.channel := hw.name.trans hch
    obtain ⟨hq, -⟩ := ho.place_eq (by rw [hname]; exact hr.nul) (by rw [hname]; exact hr.slash)
    have hrecords : (if out.positive then [request.record] else []) = [request.record] :=
      if_pos hout
    rw [← hrecords] at ho
    refine ⟨_, .opened hname (hsdir.trans hf.folder.symm) ho fun _ hne =>
      absurd (hw.size.trans h0) hne, Or.inr ⟨ho.folder.trans hsdir, _,
        List.mem_append_right _ (List.mem_singleton_self _), hq.trans hsdir, hname, ho.writes⟩,
      fun g hg _ => List.mem_append_left _ hg⟩

/-- The first write to a channel, whose files can be created. -/
lemma open_wrote (hn : host.NeverFails) (hf : f.Stocked dir pairs) {request : LogRequest}
    (hr : request.Proper) {s₀ s₁ s' : StreamWriter} (hname : s₀.name_ = request.channel)
    (hfolder : s₀.folder_ = f.folder_)
    {w₁ : World} {q : Path} {leaf : Bytes}
    (ho : StreamWriter.Opened host s₀ s₁ w w₁ request.time_ns [] q leaf) {out : Outcome}
    (h : s₁.write host request.time_ns request.data w₁ = (out, s', w')) :
    ∃ pairs', Wrote host f request w pairs out w' pairs' ∧
      s'.Serves dir pairs' request.channel ∧ ∀ p ∈ pairs, p ∈ pairs' := by
  have h0 : (0 : UInt8) ∉ s₀.name_ := by rw [hname]; exact hr.nul
  have h47 : (47 : UInt8) ∉ s₀.name_ := by rw [hname]; exact hr.slash
  obtain ⟨hq, -⟩ := ho.place_eq h0 h47
  have hdir : s₀.folder_ = dir := hfolder.trans hf.folder
  have hserves : ∀ {s : StreamWriter} {records : List Record}, s.folder_ = s₀.folder_ →
      s.Writes (s₀.stream request.time_ns records) w.inodes (w.inodes + 1) →
        s.Serves dir (pairs ++ [FilePair.ofOpened s₀ w request.time_ns records q leaf])
          request.channel := fun hs hw =>
    Or.inr ⟨hs.trans hdir, _, List.mem_append_right _ (List.mem_singleton_self _), hq.trans hdir,
      hname, hw⟩
  rcases StreamWriter.write_cases (f := .ofOpened s₀ w request.time_ns [] q leaf)
      (r := request.record) hn (FilePair.kept_ofOpened ho) ho.writes h0 hr.data h with
    ⟨hout, e, hs'⟩ | ⟨hout, hw', e, -, hsize, hfolder', hinj⟩ | ⟨-, -, hbig, -⟩
  · -- the files are there, the record is not
    have hnone : (if out.positive then [request.record] else []) = [] := if_neg (by simp [hout])
    have ho' := ho.later e
    rw [← hnone] at ho'
    refine ⟨_, .opened hname hfolder ho' fun hpos => absurd hpos (by simp [hout]), ?_,
      fun p hp => List.mem_append_left _ hp⟩
    rcases hs' with rfl | hdead
    · rw [hnone]
      exact hserves ho.folder ho.writes
    · exact Or.inl hdead
  · have hone : (if out.positive then [request.record] else []) = [request.record] := if_pos hout
    have ho' := ho.push hw' e hfolder' hinj
    rw [List.nil_append, ← hone] at ho'
    exact ⟨_, .opened hname hfolder ho' fun _ => hsize, hserves ho'.folder ho'.writes,
      fun p hp => List.mem_append_left _ hp⟩
  · -- the first record is far from the limit of the offsets
    have hdata := hr.data
    simp only [FilePair.ofOpened, StreamWriter.stream, Stream.endOffset, List.map_nil, List.sum_nil,
      sizeofLogFileHeader, UINT32_MAX, LogRequest.record] at hbig
    omega

/-- **A write to a channel** of a folder keeps it stocked, also when no path leads to its files any
more. -/
lemma writeChannel_wrote_of_kept (hn : host.NeverFails) (hk : ∀ p ∈ pairs, p.Kept w)
    (hi : ∀ p ∈ pairs, ∀ g ∈ pairs, p.index = g.index → p = g) (hf : f.Stocked dir pairs)
    {request : LogRequest} (hr : request.Proper) :
    ∃ pairs', Wrote host f request w pairs (f.writeChannel host request w).1
        (f.writeChannel host request w).2.2 pairs' ∧
      (f.writeChannel host request w).2.1.Stocked dir pairs' := by
  cases hlook : f.files_.lookup request.channel with
  | some s =>
      obtain ⟨pairs', hwrote, hserves, hothers⟩ :=
        serves_wrote hn hk hi hf hr hlook rfl
      simp only [writeChannel, hlook, writeTo]
      exact ⟨pairs', hwrote, hf.set rfl (lookup_update hlook) (fun c hc => lookup_update_ne hc)
        hserves hothers⟩
  | none =>
      obtain ⟨s₀, hs₀⟩ : ∃ s₀ : StreamWriter, s₀ =
        { folder_ := f.folder_, name_ := request.channel, record_size_ := request.size } :=
          ⟨_, rfl⟩
      have hname : s₀.name_ = request.channel := by rw [hs₀]
      have hfolder : s₀.folder_ = f.folder_ := by rw [hs₀]
      have hopen : ({ folder_ := f.folder_ } : StreamWriter).openFile host request w =
          s₀.reopenFile host request.time_ns w := by rw [hs₀]; rfl
      simp only [writeChannel, hlook, hopen]
      by_cases hable : s₀.Openable host request.time_ns w.tree
      · obtain ⟨v, s₁, w₁, hre, hv⟩ :=
          StreamWriter.reopenFile_reliable hn (by rw [hname]; exact hr.nul) hable
        obtain ⟨-, q, leaf, ho⟩ := StreamWriter.reopenFile_pos hre hv
          (by rw [hname]; exact hr.nul)
        obtain ⟨pairs', hwrote, hserves, hmem⟩ := open_wrote hn hf hr hname hfolder ho rfl
        simp only [hre, not_le.mpr hv, if_false, writeTo]
        exact ⟨pairs', hwrote, hf.set rfl (lookup_update (lookup_added hlook))
          (fun c hc => (lookup_update_ne hc).trans (lookup_added_ne hc)) hserves
          fun p hp _ => hmem p hp⟩
      · obtain ⟨⟨out, s, w₁⟩, ho⟩ : ∃ o, o = s₀.reopenFile host request.time_ns w :=
          ⟨_, rfl⟩
        obtain ⟨hout, hdead, -, -, -, e⟩ :=
          StreamWriter.reopenFile_not_openable hable ho.symm (by rw [hs₀]; rfl)
        have hadd : ({ f with files_ := f.files_ ++ [(request.channel, s)] } : Folder).Stocked dir
            pairs := hf.set rfl (lookup_added hlook) (fun c hc => lookup_added_ne hc) (Or.inl hdead)
          fun p hp _ => hp
        rw [← ho]
        cases out with
        | ret result =>
            have hle : result ≤ 0 := by simpa using hout
            simp only [hle, if_true]
            exact ⟨pairs, .refused hout e, hadd⟩
        | thrown => exact ⟨pairs, .refused hout e, hadd⟩
        | hangs => exact ⟨pairs, .refused hout e, hadd⟩

/-- **A write to a channel** of a folder keeps it stocked. -/
lemma writeChannel_wrote (hn : host.NeverFails) (hp : Shelved w log pairs)
    (hf : f.Stocked dir pairs) {request : LogRequest} (hr : request.Proper) :
    ∃ pairs', Wrote host f request w pairs (f.writeChannel host request w).1
        (f.writeChannel host request w).2.2 pairs' ∧
      (f.writeChannel host request w).2.1.Stocked dir pairs' :=
  writeChannel_wrote_of_kept hn hp.kept (fun _ hf _ hg => hp.eq_of_index hf hg) hf hr

namespace Wrote

variable {request : LogRequest} {out : Outcome} {pairs' : List FilePair}

/-- Every pair goes on, and its files keep their places. -/
lemma kept (h : Wrote host f request w pairs out w' pairs') {p : FilePair} (hp : p ∈ pairs) :
    ∃ p' ∈ pairs', p'.index = p.index ∧ p'.stream.channel = p.stream.channel ∧
      p'.dir = p.dir ∧ p'.leaf = p.leaf := by
  cases h with
  | refused hout e => exact ⟨p, hp, rfl, rfl, rfl, rfl⟩
  | @appended s g hout hlook hmem hdir hchannel hs e hoffset hsize =>
      refine ⟨_, List.mem_map_of_mem hp, ?_⟩
      unfold Books.bump
      split_ifs <;> exact ⟨rfl, rfl, rfl, rfl⟩
  | opened hname hfolder ho hsize =>
      exact ⟨p, List.mem_append_left _ hp, rfl, rfl, rfl, rfl⟩

/-- What holds of every pair, is kept by one more record and holds of a new pair. -/
lemma forall_mem (h : Wrote host f request w pairs out w' pairs') {P : FilePair → Prop}
    (hpush : ∀ p, P p → P (p.push request.record))
    (hnew : ∀ {s s' : StreamWriter} {rs : List Record} {q : Path} {leaf : Bytes},
      s.name_ = request.channel → s.folder_ = f.folder_ →
        StreamWriter.Opened host s s' w w' request.time_ns rs q leaf →
          P (.ofOpened s w request.time_ns rs q leaf))
    (hp : ∀ p ∈ pairs, P p) : ∀ p ∈ pairs', P p := by
  cases h with
  | refused hout e => exact hp
  | @appended s p hout hlook hmem hdir hchannel hs e hoffset hsize =>
      intro g' hg'
      obtain ⟨g, hg, rfl⟩ := List.mem_map.mp hg'
      unfold Books.bump
      split_ifs
      · exact hpush g (hp g hg)
      · exact hp g hg
  | opened hname hfolder ho hsize =>
      intro g hg
      rcases List.mem_append.mp hg with hg | hg
      · exact hp g hg
      · rw [List.mem_singleton.mp hg]
        exact hnew hname hfolder ho

/-- **The pairs stay on their shelves**, with the record on one of them when the call reports it: on
one of its channel in the folder. -/
lemma shelved (h : Wrote host f request w pairs out w' pairs') (hr : request.Proper)
    (hp : Shelved w log pairs) : ∃ i,
      Shelved w' (log ++ if out.positive then [(i, request.record)] else []) pairs' ∧
      (out.positive = true → ∃ p ∈ pairs', p.index = i ∧
        p.stream.channel = request.channel ∧ p.dir = f.folder_) := by
  cases h with
  | refused hout e =>
      refine ⟨0, ?_, fun hpos => absurd hpos (by simp [hout])⟩
      rw [if_neg (by simp [hout]), List.append_nil]
      exact hp.of_extends_nil e
  | @appended s p hout hlook hmem hdir hchannel hs e hoffset hsize =>
      have hbump : Books.bump p.index request.record p = p.push request.record := if_pos rfl
      refine ⟨p.index, ?_, fun _ => ⟨_, List.mem_map_of_mem hmem, ?_⟩⟩
      · rw [if_pos hout]
        refine hp.append hmem e ((hp.sound p hmem).push hsize fun h0 => ?_)
        have := hoffset h0
        simp only [LogRequest.record]
        omega
      · rw [hbump]
        exact ⟨rfl, hchannel, hdir⟩
  | @opened s s' q leaf hname hfolder ho hsize =>
      have hdata := hr.data
      have hq : q = f.folder_ := by
        obtain ⟨hq, -⟩ := ho.place_eq (by rw [hname]; exact hr.nul)
          (by rw [hname]; exact hr.slash)
        exact hq.trans hfolder
      refine ⟨w.inodes, ?_, fun _ =>
        ⟨_, List.mem_append_right _ (List.mem_singleton_self _), rfl, hname, hq⟩⟩
      by_cases hout : out.positive = true
      · simp only [hout, if_true] at ho ⊢
        refine hp.enter ho ⟨fun hne r hr => ?_, fun h0 => ?_⟩
        · rw [List.mem_singleton.mp hr]
          exact hsize hout hne
        · simp only [StreamWriter.stream, Stream.endOffset, Stream.room, sizeofLogFileHeader,
            List.map_cons, List.map_nil, List.sum_cons, List.sum_nil, UINT32_MAX,
            LogRequest.record]
          omega
      · simp only [hout, Bool.false_eq_true, if_false] at ho ⊢
        refine hp.enter ho ⟨fun _ r hr => ?_, fun _ => ?_⟩
        · cases hr
        · simp [StreamWriter.stream, Stream.endOffset, sizeofLogFileHeader, UINT32_MAX]

/-- **The pairs are where they belong**, those of other directories as well. -/
lemma placed (h : Wrote host f request w pairs out w' pairs') (hr : request.Proper)
    (hdir : f.folder_.Quiet) {D : Path → Prop} (hD : D f.folder_)
    (hp : ∀ p ∈ pairs, p.Placed p.dir ∧ D p.dir) :
    ∀ p ∈ pairs', p.Placed p.dir ∧ D p.dir :=
  h.forall_mem (fun p hp => ⟨hp.1.push request.record, hp.2⟩) (fun hname hfolder ho => by
    have hplaced := FilePair.placed_ofOpened ho hdir hfolder hr hname
    exact ⟨by rwa [hplaced.dir], by rwa [hplaced.dir]⟩) hp

end Wrote

end Folder

/-! ## The backend -/

open FilesystemStorageBackend

/-- The active folder is that of its day. -/
structure FilesystemStorageBackend.Homed (root : Path) (b : FilesystemStorageBackend) : Prop where
  path : b.folder_path_ = root
  folder : b.folder_.yyyymmdd_ ≠ 0 → b.folder_.folder_ = root ++ [toDec b.folder_.yyyymmdd_]

lemma homed_make (root : Path) : (FilesystemStorageBackend.make root).Homed root :=
  ⟨rfl, fun h => absurd rfl h⟩

/-- A new directory has no files. -/
lemma Folder.create_adds (host : Host) (f : Folder) (time_ns : UInt64) (w : World) :
    w.Adds w.inodes (f.create host time_ns w).2.2 ∧
      (f.create host time_ns w).2.2.inodes = w.inodes := by
  have hself : ∀ w' : World, w'.tree = w.tree → w'.inodes = w.inodes → w'.tape = w.tape →
      w.Adds w.inodes w' ∧ w'.inodes = w.inodes := fun w' ht hi hp =>
    ⟨World.Adds.of_extends (World.Extends.of_eq ht hi hp) (by simp), hi⟩
  have hmade : ∀ p, w.Adds w.inodes (create_directories host p w).2 ∧
      (create_directories host p w).2.inodes = w.inodes := by
    intro p
    unfold create_directories
    split
    · split_ifs
      · exact hself _ rfl rfl rfl
      · refine ⟨⟨⟨[], by simp, by simp⟩, le_rfl, fun q n hq => ?_, fun q i _ hq => ?_⟩,
          rfl⟩
        · exact Tree.lookup_mkdirsRev_of_some hq _
        · exact World.lookup_mkdirsRev_file _ hq
    · exact hself _ rfl rfl rfl
    · exact hself _ rfl rfl rfl
  simp only [create]
  split
  · exact hself _ rfl rfl rfl
  · split <;> exact hmade _

/-- **What a write to the backend is**: a write to a channel of a folder of the right day, which is
the active one or a new one, or, when the directory of a new one cannot be created, nothing. -/
lemma backend_write_folder (host : Host) {root : Path} {b : FilesystemStorageBackend}
    (hb : b.Homed root) (request : LogRequest) (w : World) :
    ∃ f w₁, f.folder_ = dayDir host root request.time_ns ∧
      (f.yyyymmdd_ ≠ 0 → f.yyyymmdd_ = host.cal.Time2YYYYMMDD request.time_ns) ∧
      ((b.folder_.sameDay host request.time_ns = true ∧ f = b.folder_ ∧
        f.yyyymmdd_ ≠ 0 ∧ w₁ = w) ∨ (b.folder_.sameDay host request.time_ns = false ∧
          f.files_ = [] ∧ w.Adds w.inodes w₁ ∧ w₁.inodes = w.inodes)) ∧
      (b.write host request w = ((f.writeChannel host request w₁).1,
          { b with folder_ := (f.writeChannel host request w₁).2.1 },
          (f.writeChannel host request w₁).2.2) ∨
        (f.files_ = [] ∧ (b.write host request w).1.positive = false ∧
          (b.write host request w).2 = ({ b with folder_ := f }, w₁))) := by
  have hpos := (host.cal.day_bounds request.time_ns).1
  by_cases hsame : b.folder_.sameDay host request.time_ns = true
  · have heq : b.folder_.yyyymmdd_ = host.cal.Time2YYYYMMDD request.time_ns :=
      of_decide_eq_true hsame
    have hday : b.folder_.yyyymmdd_ ≠ 0 := by omega
    have hwrite : b.folder_.write host request w = b.folder_.writeChannel host request w :=
      if_neg hday
    refine ⟨b.folder_, w, ?_, fun _ => heq, Or.inl ⟨hsame, rfl, hday, rfl⟩, Or.inl ?_⟩
    · rw [hb.folder hday, heq, dayDir]
    · simp only [FilesystemStorageBackend.write, hsame, if_true, hwrite]
  · have hother : b.folder_.sameDay host request.time_ns = false := Bool.eq_false_iff.mpr hsame
    obtain ⟨-, hfolder, hfiles, hday⟩ := create_confined host root request.time_ns
      (b.folder_.close host w)
    have hclose := b.folder_.close_extends host w
    obtain ⟨hadds, hinodes⟩ := ({ folder_ := root } : Folder).create_adds host request.time_ns
      (b.folder_.close host w)
    rw [hclose.inodes] at hadds hinodes
    have hall := (World.Adds.of_extends hclose (by simp)).trans hadds
    simp only [FilesystemStorageBackend.write, if_neg hsame, hb.path, Folder.write]
    generalize ({ folder_ := root } : Folder).create host request.time_ns
      (b.folder_.close host w) = c at hfolder hfiles hday hall hinodes ⊢
    obtain ⟨made, f, w₁⟩ := c
    refine ⟨f, w₁, hfolder, hday, Or.inr ⟨hother, hfiles, hall, hinodes⟩, ?_⟩
    cases made with
    | none => exact Or.inr ⟨hfiles, rfl, rfl⟩
    | some made =>
        cases made with
        | false =>
            exact Or.inr ⟨hfiles, (by decide : (Outcome.ret (-EINVAL)).positive = false), rfl⟩
        | true => exact Or.inl rfl

/-- Every write leaves the folder of its day behind. -/
lemma FilesystemStorageBackend.Homed.write (host : Host) {root : Path}
    {b : FilesystemStorageBackend} (hb : b.Homed root) (request : LogRequest) (w : World) :
    (b.write host request w).2.1.Homed root := by
  obtain ⟨f, w₁, hfolder, hday, -, heq | ⟨-, -, heq⟩⟩ :=
    backend_write_folder host hb request w
  · rw [heq]
    refine ⟨hb.path, fun h => ?_⟩
    rw [Folder.yyyymmdd_writeChannel] at h ⊢
    rw [Folder.folder_writeChannel, hday h, hfolder, dayDir]
  · rw [heq]
    refine ⟨hb.path, fun h => ?_⟩
    rw [hday h, hfolder, dayDir]

end Tracebox
