import Tracebox.Stream.Crash
import Tracebox.Stream.Faults
import Tracebox.Stream.Reliable

/-!
# The limits of 32 bits

The position of a record in its data file is kept in 32 bits, the size of a payload is stored in 32
bits, and `write` returns an `int`.  A stream moves to a new pair of files before a position
overflows, but **the check sees the size after it was cut to 32 bits**, it is **not made again for
the new pair**, and **the result is not checked at all**.

* `Exact` — what the code means to keep: the writer's position is the length of its data file, and
  every accepted record lies whole where its index entry says.
* `WithinLimits` — the calls whose arithmetic is exact, in terms of the state before the call.
* `write_within` — one such call keeps the books of the stream.
* `exact_within_limits` — **runs of such calls**, over any number of pairs of files.
* `wide_payload_lost` — a payload of `2 ^ 32` bytes is accepted, and none of it is stored.
-/

namespace Tracebox

open Bytes

/-- Entry `k` of the index file `i` is the exact position, in the data file `d`, of a record that is
stored there whole. -/
def World.Locates (w : World) (i d k : ℕ) (r : Record) : Prop :=
  ∃ offset : ℕ, offset < 2 ^ 32 ∧ r.data.length < 2 ^ 32 ∧
    slice (w.content i) (sizeofLogFileHeader + 12 * k) 12 =
      toLE 8 r.time_ns.toNat ++ toLE 4 offset ∧
    slice (w.content d) offset (12 + r.data.length) =
      toLE 8 r.time_ns.toNat ++ (toLE 4 r.data.length ++ r.data)

namespace StreamWriter

/-- The writer knows where its data file ends.  Each index file of the log has one entry for every
record that was accepted into it, and in the data file beside it there is that record. -/
structure Exact (s : StreamWriter) (w : World) (log : List (ℕ × Record)) : Prop where
  offset : ∀ f, live s.data_ = some f → (w.content f.inode).length = s.offset_.toNat
  files : ∀ i ∈ log.map Prod.fst, ∃ d q leaf,
    w.tree.lookup (indexPath q leaf) = some (.file i) ∧
    w.tree.lookup (dataPath q leaf) = some (.file d) ∧
    (w.content i).length = sizeofLogFileHeader + 12 * (Tape.project i log).length ∧
    ∀ k r, (Tape.project i log)[k]? = some r → w.Locates i d k r

/-- The arithmetic of the call is exact.  Nothing is computed when the stream is closed or its new
pair of files cannot be created.  Otherwise the bytes added, with the two headers of a new pair,
have to be a positive `int`, and the record has to end below `2 ^ 32`.  On a rollover there are a
few lengths whose sum is positive again. -/
def WithinLimits (host : Host) (s : StreamWriter) (r : Record) (w : World) : Prop :=
  live s.index_ = none ∨ (s.rollover r.data = true ∧ ¬ s.Openable host r.time_ns w.tree) ∨
    if s.rollover r.data then r.data.length + 122 < 2 ^ 31 ∨
      (2 ^ 32 < r.data.length + 122 ∧ r.data.length + 61 < 2 ^ 32)
    else r.data.length + 24 < 2 ^ 31

/-- The books balance, and both files of the stream are open or both are closed. -/
def Settled (s : StreamWriter) (channel : Bytes) (w : World) (log : List (ℕ × Record)) : Prop :=
  ∃ pairs, s.Balanced channel w log pairs ∧ (live s.index_ = none → live s.data_ = none)

variable {host : Host} {s s' : StreamWriter} {channel : Bytes} {w w' : World}
  {log : List (ℕ × Record)} {pairs : List FilePair} {r : Record}

/-! ## What the books say about the files -/

/-- A record of a kept pair lies where its entry says. -/
lemma locates_of_kept {f : FilePair} (hk : f.Kept w) (h0 : f.stream.record_size = 0)
    (hs : f.stream.Sound) {k : ℕ} (hr : f.stream.records[k]? = some r) :
    w.Locates f.index f.data k r := by
  obtain ⟨hlt, rfl⟩ := List.getElem?_eq_some_iff.mp hr
  have hend := hs.offset h0
  have hnext := f.stream.offsetOf_le_endOffset (k + 1) h0
  rw [Stream.offsetOf_succ hlt, Stream.room] at hnext
  have hentry := Stream.slice_index (fun h => absurd h0 h) hlt
  rw [Stream.entrySize, if_pos h0, Stream.indexBlock, if_pos h0] at hentry
  have hblock := Stream.slice_dataFile h0 hlt
  rw [Stream.dataBlock, if_pos h0, Stream.room] at hblock
  unfold UINT32_MAX at hend
  refine ⟨f.stream.offsetOf k, by omega, by omega, ?_, ?_⟩
  · rw [hk.content_index]
    exact hentry
  · rw [hk.content_data h0]
    exact hblock

/-- Balanced books are exact. -/
lemma Settled.exact (h : s.Settled channel w log) : s.Exact w log := by
  obtain ⟨pairs, hb, hclosed⟩ := h
  constructor
  · intro f hf
    have hopen : live s.index_ ≠ none := fun h => by
      rw [hclosed h] at hf
      cases hf
    obtain ⟨g, hg, hw⟩ := hb.current.resolve_left hopen
    obtain ⟨-, h0⟩ := hb.books.named g hg
    rw [hw.data h0] at hf
    cases hf
    rw [(hb.books.kept g hg).content_data h0, Stream.length_dataFile h0, hw.offset h0]
  · intro i hi
    obtain ⟨e, he, rfl⟩ := List.mem_map.mp hi
    obtain ⟨g, hg, hgi⟩ := hb.books.logged e he
    obtain ⟨-, h0⟩ := hb.books.named g hg
    have hk := hb.books.kept g hg
    have hl := hb.books.linked g hg
    rw [← hgi, ← hb.books.records g hg]
    refine ⟨g.data, g.dir, g.leaf, (hl.index g.indexPath).mpr rfl, hl.data h0, ?_, ?_⟩
    · rw [hk.content_index, Stream.length_index fun h => absurd h0 h, Stream.entrySize, if_pos h0]
    · exact fun k r hr => locates_of_kept hk h0 (hb.books.sound g hg) hr

/-- A call that appends nothing adds no entry. -/
lemma entries_of_extends_nil (e : w.Extends w' []) (i : ℕ) : w'.entries i = w.entries i := by
  rw [World.entries, World.entries, e.content, Tape.project_nil, List.append_nil]

/-! ## One call -/

lemma toInt_pos {n : ℕ} (h : 0 < n ∧ n < 2 ^ 31 ∨ 2 ^ 32 < n ∧ n < 2 ^ 32 + 2 ^ 31) :
    0 < toInt n := by
  rw [toInt, Int.bmod_def]
  split_ifs <;> omega

lemma toNat_ofNat_length {data : Bytes} (h : data.length < 2 ^ 32) :
    (UInt32.ofNat data.length).toNat = data.length := by
  rw [UInt32.toNat_ofNat', Nat.mod_eq_of_lt h]

/-- Closing the files does not matter to where the next pair can be created. -/
lemma openable_closeFile (host : Host) (s : StreamWriter) (time_ns : UInt64) (w : World) :
    (s.closeFile host w).1.Openable host time_ns (s.closeFile host w).2.tree ↔
      s.Openable host time_ns w.tree := by
  rw [(closeFile_extends s w).tree]
  exact Iff.rfl

/-- **A rollover without a place for the new pair** appends nothing and leaves the stream closed. -/
lemma writeVariable_refused {f : FilePair} (hw : s.Writes f.stream f.index f.data)
    (h0 : f.stream.record_size = 0) (hroll : s.rollover r.data = true)
    (hno : ¬ s.Openable host r.time_ns w.tree) {flush : Bool} {out : Outcome}
    (h : s.writeVariable host flush r.time_ns r.data w = (out, s', w')) :
    out.positive = false ∧ live s'.index_ = none ∧ live s'.data_ = none ∧
      w.Extends w' [] := by
  have hlive : live s.data_ = some ⟨f.data, true⟩ := by rw [hw.data h0]; rfl
  simp only [writeVariable, hlive, hroll, if_true] at h
  obtain ⟨hclosed, hdata⟩ := live_closeFile host s w
  have e : w.Extends (s.closeFile host w).2 [] := closeFile_extends s w
  rw [← openable_closeFile] at hno
  obtain ⟨⟨out₁, s₁, w₁⟩, hre⟩ : ∃ x, x = (s.closeFile host w).1.reopenFile
    host r.time_ns
    (s.closeFile host w).2 := ⟨_, rfl⟩
  obtain ⟨hout, hindex, hsame, -, -, e₁⟩ := reopenFile_not_openable hno hre.symm hclosed
  have hend : out.positive = false ∧ s' = s₁ ∧ w' = w₁ := by
    rw [← hre] at h
    cases out₁ with
    | ret v =>
        have hv : v ≤ 0 := by simpa [Outcome.positive] using hout
        simp only [hv, if_true, Prod.mk.injEq] at h
        exact ⟨by rw [← h.1]; exact hout, h.2.1.symm, h.2.2.symm⟩
    | thrown => cases h; exact ⟨rfl, rfl, rfl⟩
    | hangs => cases h; exact ⟨rfl, rfl, rfl⟩
  obtain ⟨hfalse, rfl, rfl⟩ := hend
  exact ⟨hfalse, hindex, by rw [hsame]; exact hdata, e.trans e₁⟩

/-- **A record of exact arithmetic** is accepted, into the current pair or into a new one. -/
lemma writeVariable_accepted (hn : host.NeverFails) {f : FilePair} (hk : f.Kept w)
    (hw : s.Writes f.stream f.index f.data) (h0 : f.stream.record_size = 0)
    (hnul : (0 : UInt8) ∉ s.name_)
    (hopen : s.rollover r.data = true → s.Openable host r.time_ns w.tree)
    (hlim : if s.rollover r.data then r.data.length + 122 < 2 ^ 31 ∨
      (2 ^ 32 < r.data.length + 122 ∧ r.data.length + 61 < 2 ^ 32)
      else r.data.length + 24 < 2 ^ 31) (flush : Bool) :
    ∃ v s' w', s.writeVariable host flush r.time_ns r.data w = (.ret v, s', w') ∧ 0 < v := by
  have hlive : live s.data_ = some ⟨f.data, true⟩ := by rw [hw.data h0]; rfl
  have hlt : r.data.length + 61 < 2 ^ 32 := by
    split_ifs at hlim <;> omega
  have hlen : (UInt32.ofNat r.data.length).toNat = r.data.length := toNat_ofNat_length (by omega)
  by_cases hroll : s.rollover r.data = true
  · rw [if_pos hroll] at hlim
    simp only [writeVariable, hlive, hroll, if_true]
    obtain ⟨v, s₁, w₁, hre, hv⟩ := reopenFile_reliable (s := (s.closeFile host w).1) hn hnul
      ((openable_closeFile host s r.time_ns w).mpr (hopen hroll))
    obtain ⟨hval, q, leaf, ho⟩ := reopenFile_pos hre hv hnul
    have hsize : (s.closeFile host w).1.record_size_ = 0 := hw.size.trans h0
    have hend : ((s.closeFile host w).1.stream r.time_ns []).endOffset = sizeofLogFileHeader := by
      simp [stream, Stream.endOffset]
    obtain ⟨s₂, w₂, hc, -⟩ := commitRecord_reliable hn ho.writes hsize ho.inodes_lt.1
      (ho.inodes_lt.2 hsize) flush r (by rw [hend, sizeofLogFileHeader, UINT32_MAX]; omega) v
    rw [if_pos hsize] at hval
    have hsum : v + (totalLength r.data : ℤ) = ((r.data.length + 122 : ℕ) : ℤ) := by
      rw [hval, totalLength, hlen]
      push_cast
      ring
    simp only [hre, not_le.mpr hv, if_false, hc]
    refine ⟨_, _, _, rfl, ?_⟩
    rw [hsum]
    exact toInt_pos (by omega)
  · rw [if_neg hroll] at hlim
    simp only [writeVariable, hlive, hroll, if_false, Bool.false_eq_true]
    have hfit : f.stream.endOffset + 12 + r.data.length ≤ UINT32_MAX := by
      simp only [rollover, totalLength, hlen, hw.offset h0, decide_eq_true_eq] at hroll
      omega
    obtain ⟨s₂, w₂, hc, -⟩ := commitRecord_reliable hn hw h0 hk.index_lt
      (hk.data_lt h0) flush r
      hfit 0
    have hsum : (0 : ℤ) + totalLength r.data = ((r.data.length + 24 : ℕ) : ℤ) := by
      rw [totalLength, hlen]
      push_cast
      ring
    refine ⟨_, _, _, hc, ?_⟩
    rw [hsum]
    exact toInt_pos (by omega)

/-- **One call within the limits** keeps the books.  It enters its record, or it fails and adds no
entry to any file. -/
lemma write_within (hn : host.NeverFails) (hs : s.Settled channel w log)
    (hnul : (0 : UInt8) ∉ channel) (hlim : s.WithinLimits host r w) {out : Outcome}
    (h : s.write host r.time_ns r.data w = (out, s', w')) :
    s'.Settled channel w' (log ++ if out.positive then [(s'.indexInode, r)] else []) ∧
      (out.positive = false → ∀ i, w'.entries i = w.entries i) := by
  obtain ⟨pairs, hb, hclosed⟩ := hs
  by_cases hdead : live s.index_ = none
  · simp only [write, hdead] at h
    cases h
    have hneg : (Outcome.ret (-EINVAL)).positive = false := by decide
    rw [hneg]
    exact ⟨⟨pairs, by simpa using hb, hclosed⟩, fun _ _ => rfl⟩
  obtain ⟨f, hf, hw⟩ := hb.current.resolve_left hdead
  obtain ⟨hname, h0⟩ := hb.books.named f hf
  have hb₀ := hb.books.of_extends_nil (now_extends host w)
  have hlive : live s.index_ = some ⟨f.index, true⟩ := by rw [hw.index]; rfl
  have hwrite : s.write host r.time_ns r.data w =
      s.writeVariable host (s.flushDue host w) r.time_ns r.data (w.now host).2 := by
    simp only [write, hlive, hw.size, h0, ne_eq, not_true_eq_false, if_false]
  by_cases hrefused : s.rollover r.data = true ∧ ¬ s.Openable host r.time_ns w.tree
  · rw [hwrite] at h
    obtain ⟨hout, hindex, hdata, e⟩ := writeVariable_refused (w := (w.now host).2) hw h0
      hrefused.1 hrefused.2 h
    rw [hout]
    refine ⟨⟨pairs, ⟨?_, Or.inl hindex⟩, fun _ => hdata⟩, fun _ i => ?_⟩
    · simpa using hb₀.of_extends_nil e
    · exact entries_of_extends_nil ((now_extends host w).trans e) i
  · have harith := (hlim.resolve_left hdead).resolve_left hrefused
    have hlen : r.data.length + 61 ≤ UINT32_MAX := by
      unfold UINT32_MAX
      split_ifs at harith <;> omega
    obtain ⟨v, s₁, w₁, hv, hpos⟩ := writeVariable_accepted (w := (w.now host).2) hn
      (hb₀.kept f hf)
      hw h0 (by rw [hw.name, hname]; exact hnul)
      (fun hroll => not_not.mp fun hno => hrefused ⟨hroll, hno⟩) harith (s.flushDue host w)
    rw [← hwrite, h] at hv
    cases hv
    have hpositive : (Outcome.ret v).positive = true := Outcome.positive_iff.mpr ⟨v, rfl, hpos⟩
    obtain ⟨pairs', hl, -, -⟩ := write_ledger ⟨hb.books, f, hf, hw⟩ hnul hlen h hpos
    rw [if_pos hpositive]
    refine ⟨⟨pairs', ⟨hl.books, Or.inr hl.current⟩, fun hdead' => ?_⟩, fun hout => ?_⟩
    · obtain ⟨g, -, hg⟩ := hl.current
      rw [hg.index] at hdead'
      cases hdead'
    · rw [hpositive] at hout
      cases hout

/-! ## Runs -/

/-- A run of calls within the limits keeps the books. -/
lemma run_within (hn : host.NeverFails) (hnul : (0 : UInt8) ∉ channel) {records : List Record}
    (hs : s.Settled channel w log)
    (hlim : Machine.Throughout (writeStep host) (fun x r => x.1.WithinLimits host r x.2) (s, w)
      records) {log' : List (ℕ × Record)} (hrun : s.run host records w = (log', s', w')) :
    s'.Settled channel w' (log ++ log') := by
  induction records generalizing s w log log' with
  | nil =>
      cases hrun
      rw [List.append_nil]
      exact hs
  | cons r rs ih =>
      obtain ⟨⟨out, s₁, w₁⟩, ho⟩ : ∃ o, o = s.write host r.time_ns r.data w :=
        ⟨_, rfl⟩
      obtain ⟨⟨rest, s₂, w₂⟩, hr⟩ : ∃ o, o = s₁.run host rs w₁ := ⟨_, rfl⟩
      have hstep : writeStep host (s, w) r = some (s₁, w₁) := by rw [writeStep, ← ho]
      obtain ⟨hnow, hlater⟩ := (Machine.throughout_cons_iff hstep).mp hlim
      simp only [run, ← ho, ← hr, Prod.mk.injEq] at hrun
      obtain ⟨rfl, rfl, rfl⟩ := hrun
      rw [← List.append_assoc]
      exact ih (write_within hn hs hnul hnow ho.symm).1 hlater hr.symm

/-- The state a run leaves is the state the machine is in. -/
lemma run_writeStep (host : Host) (s : StreamWriter) (records : List Record) (w : World) :
    Machine.run (writeStep host) (s, w) records = some (s.run host records w).2 := by
  induction records generalizing s w with
  | nil => rfl
  | cons r rs ih => exact ih _ _

end StreamWriter

open StreamWriter

/-- **Exact positions and sizes within the limits.**  A stream of variable-size records is opened,
and records of any length are given to it, in as many pairs of files as it takes.  If every call so
far was within the limits, then after the last one the writer's position is the length of its data
file and every accepted record, the last one included if its result was positive, lies whole at the
position in its index entry; if the result was not positive, no file has got an entry. -/
theorem exact_within_limits {host : Host} (hn : host.NeverFails) {s₀ s s₁ s₂ : StreamWriter}
    {request : LogRequest} {w₀ w w₁ w₂ : World} {out₀ out : Outcome} {done : List Record}
    {r : Record} {log : List (ℕ × Record)}
    (hopen : s₀.openFile host request w₀ = (out₀, s, w)) (hout₀ : out₀.positive = true)
    (hvar : request.size = 0) (hnul : (0 : UInt8) ∉ request.channel)
    (hlim : Machine.Throughout (writeStep host) (fun x r => x.1.WithinLimits host r x.2) (s, w)
      (done ++ [r]))
    (hrun : s.run host done w = (log, s₁, w₁))
    (hwrite : s₁.write host r.time_ns r.data w₁ = (out, s₂, w₂)) :
    s₁.Exact w₁ log ∧
      s₂.Exact w₂ (log ++ if out.positive then [(s₂.indexInode, r)] else []) ∧
      (out.positive = false → ∀ i, w₂.entries i = w₁.entries i) := by
  obtain ⟨v, rfl, hv⟩ := Outcome.positive_iff.mp hout₀
  obtain ⟨pairs, hl⟩ := openFile_ledger hopen hv hnul
  rw [hvar] at hl
  have hs : s.Settled request.channel w [] := by
    refine ⟨pairs, ⟨hl.books, Or.inr hl.current⟩, fun hdead => ?_⟩
    obtain ⟨f, -, hf⟩ := hl.current
    rw [hf.index] at hdead
    cases hdead
  obtain ⟨hdone, hlast⟩ := Machine.throughout_append hlim
  have hs₁ := run_within hn hnul hs hdone hrun
  rw [List.nil_append] at hs₁
  have hnow := hlast (s₁, w₁) (by rw [run_writeStep, hrun])
  obtain ⟨hs₂, hnone⟩ := write_within hn hs₁ hnul hnow.1 hwrite
  exact ⟨hs₁.exact, hs₂.exact, hnone⟩

/-- The second record of a stream, without a payload. -/
theorem exact_within_limits_sample :
    let first := sampleOpened.2.1.run .january [⟨1704067200000000000, [1, 2]⟩] sampleOpened.2.2
    let o := first.2.1.write .january 1704067201000000000 [] first.2.2
    o.2.1.Exact o.2.2 (first.1 ++ [(o.2.1.indexInode, ⟨1704067201000000000, []⟩)]) := by
  intro first o
  have h := @exact_within_limits .january Host.neverFails_january { folder_ := [ascii "r"] }
    sampleOpened.2.1 first.2.1 o.2.1 _ _ sampleOpened.2.2 first.2.2 o.2.2 _ o.1
    [⟨1704067200000000000, [1, 2]⟩] ⟨1704067201000000000, []⟩ first.1 rfl
      sampleOpened_positive rfl
    sample_channel.2 ⟨Or.inr (Or.inr (by decide +kernel)), Or.inr (Or.inr (by decide +kernel)),
      trivial⟩ rfl rfl
  have hpos : o.1.positive = true := by decide +kernel
  rw [if_pos hpos] at h
  exact h.2.1

/-- **Only the length modulo `2 ^ 32` is seen** of a payload of variable size. -/
theorem write_truncated (host : Host) {s : StreamWriter} (h0 : s.record_size_ = 0)
    (time_ns : UInt64) (data : Bytes) (w : World) :
    s.write host time_ns data w = s.write host time_ns (data.take (data.length % 2 ^ 32)) w := by
  have hlen : (data.take (data.length % 2 ^ 32)).length = data.length % 2 ^ 32 :=
    List.length_take_of_le (Nat.mod_le _ _)
  have hsize : UInt32.ofNat (data.take (data.length % 2 ^ 32)).length =
      UInt32.ofNat data.length := by
    rw [hlen]
    apply UInt32.toNat_inj.mp
    rw [UInt32.toNat_ofNat', UInt32.toNat_ofNat', Nat.mod_mod]
  have hbytes : (data.take (data.length % 2 ^ 32)).take (UInt32.ofNat data.length).toNat =
      data.take (UInt32.ofNat data.length).toNat := by
    rw [UInt32.toNat_ofNat', List.take_take, Nat.min_self]
  have hroll : s.rollover (data.take (data.length % 2 ^ 32)) = s.rollover data := by
    rw [rollover, rollover, totalLength, totalLength, hsize]
  have hcommit : ∀ (s : StreamWriter) (flush : Bool) (result : ℤ) (w : World),
      s.commitRecord host flush time_ns (data.take (data.length % 2 ^ 32)) result w =
        s.commitRecord host flush time_ns data result w := by
    intro s flush result w
    simp only [commitRecord, totalLength, hsize, hbytes]
  simp only [write, h0, ne_eq, not_true_eq_false, if_false, writeVariable, hroll, hcommit]

/-- **A record of at least `2 ^ 31` bytes in both files together** is stored, and the result says
that it failed. -/
theorem write_denied {host : Host} (hn : host.NeverFails) {s : StreamWriter} {w : World}
    {f : FilePair} (hk : f.Kept w) (hw : s.Writes f.stream f.index f.data)
    (h0 : f.stream.record_size = 0) {r : Record} (hroll : s.rollover r.data = false)
    (hbig : 2 ^ 31 ≤ r.data.length + 24) (hlt : r.data.length < 2 ^ 32) :
    ∃ v s' w', s.write host r.time_ns r.data w = (.ret v, s', w') ∧ v < 0 ∧
      (f.push r).Kept w' := by
  have hlen := toNat_ofNat_length hlt
  have hlive : live s.index_ = some ⟨f.index, true⟩ := by rw [hw.index]; rfl
  have hliveData : live s.data_ = some ⟨f.data, true⟩ := by rw [hw.data h0]; rfl
  have hfit : r.data.length + 24 + f.stream.endOffset ≤ UINT32_MAX := by
    simp only [rollover, totalLength, hlen, hw.offset h0, decide_eq_false_iff_not] at hroll
    omega
  obtain ⟨s', w', hc, -, e, -⟩ := commitRecord_reliable hn hw h0
    (w := (w.now host).2) hk.index_lt
    (hk.data_lt h0) (s.flushDue host w) r (by omega) 0
  have hwrite : s.write host r.time_ns r.data w =
      s.commitRecord host (s.flushDue host w) r.time_ns r.data 0 (w.now host).2 := by
    simp only [write, hlive, hw.size, h0, ne_eq, not_true_eq_false, if_false, writeVariable,
      hliveData, hroll, Bool.false_eq_true]
  refine ⟨_, s', w', hwrite.trans hc, ?_, hk.push ((now_extends host w).trans e)⟩
  have hsum : (0 : ℤ) + totalLength r.data = ((r.data.length + 24 : ℕ) : ℤ) := by
    rw [totalLength, hlen]
    push_cast
    ring
  unfold UINT32_MAX at hfit
  rw [hsum, toInt, Int.bmod_def]
  split_ifs <;> omega

/-- The limits are not checked.  A payload of `2 ^ 32` bytes is accepted, and the record in the data
file is an empty one.  A payload of `2 ^ 31 - 24` bytes gets its entry, and the result is
negative. -/
theorem wide_payload_lost :
    (let data := List.replicate (2 ^ 32) 0
      let o := sampleOpened.2.1.write .january 1704067200000000000 data sampleOpened.2.2
      o.1 = .ret 24 ∧ o.2.2.content 1 = sampleOpened.2.2.content 1 ++
        (toLE 8 1704067200000000000 ++ toLE 4 0) ∧
      ¬ o.2.1.Exact o.2.2 [(o.2.1.indexInode, ⟨1704067200000000000, data⟩)]) ∧
    (let data := List.replicate (2 ^ 31 - 24) 0
      let o := sampleOpened.2.1.write .january 1704067200000000000 data sampleOpened.2.2
      o.1.positive = false ∧ sampleOpened.2.2.entries 0 = 0 ∧ o.2.2.entries 0 = 1) := by
  have h0 : sampleOpened.2.1.record_size_ = 0 := sampleOpened_made.2.2.1
  constructor
  · intro data o
    have hlen : data.length = 2 ^ 32 := List.length_replicate
    have ho : o = sampleOpened.2.1.write .january 1704067200000000000 [] sampleOpened.2.2 := by
      have := write_truncated .january h0 1704067200000000000 data sampleOpened.2.2
      rwa [hlen, Nat.mod_self, List.take_zero] at this
    obtain ⟨hret, hcontent⟩ : o.1 = .ret 24 ∧ o.2.2.content 1 =
        sampleOpened.2.2.content 1 ++ (toLE 8 1704067200000000000 ++ toLE 4 0) := by
      rw [ho]
      decide +kernel
    refine ⟨hret, hcontent, fun hexact => ?_⟩
    obtain ⟨d, q, leaf, -, -, -, hall⟩ := hexact.files o.2.1.indexInode (by simp)
    obtain ⟨-, -, hlt, -⟩ := hall 0 ⟨1704067200000000000, data⟩ (by simp [Tape.project])
    rw [hlen] at hlt
    exact absurd hlt (lt_irrefl _)
  · intro data o
    have hlen : data.length = 2 ^ 31 - 24 := List.length_replicate
    let f : FilePair := ⟨⟨ascii "a", 0, 1704067200000000000, []⟩, 0, 1, [], []⟩
    have hfiles : (f.index < sampleOpened.2.2.inodes ∧ f.data < sampleOpened.2.2.inodes ∧
        sampleOpened.2.2.tape.filter f.owns = f.stream.tape f.index f.data) ∧
        sampleOpened.2.2.entries 0 = 0 := by
      decide +kernel
    have hwriter : sampleOpened.2.1.name_ = f.stream.channel ∧
        sampleOpened.2.1.index_ = some ⟨0, true⟩ ∧ sampleOpened.2.1.data_ =
          some ⟨1, true⟩ ∧
        sampleOpened.2.1.offset_.toNat = f.stream.endOffset ∧ f.stream.endOffset = 49 := by
      decide +kernel
    obtain ⟨⟨hindex, hdata, htape⟩, hnone⟩ := hfiles
    obtain ⟨hname, hi, hd, hoffset, h49⟩ := hwriter
    have hk : f.Kept sampleOpened.2.2 := ⟨by decide, hindex, fun _ => hdata, htape⟩
    have hw : sampleOpened.2.1.Writes f.stream 0 1 :=
      ⟨hname, h0, hi, fun _ => hd, fun _ => hoffset⟩
    have hroll : sampleOpened.2.1.rollover data = false := by
      rw [rollover, totalLength, toNat_ofNat_length (by omega), hoffset, h49, hlen]
      decide
    obtain ⟨v, s', w', ho, hv, hk'⟩ := write_denied Host.neverFails_january hk hw rfl
      (r := ⟨1704067200000000000, data⟩) hroll (by simp only [hlen]; norm_num)
      (by simp only [hlen]; norm_num)
    have hentries := entries_of_kept hk' rfl
    have ho' : o = (.ret v, s', w') := ho
    rw [ho']
    refine ⟨by simp only [Outcome.positive, decide_eq_false_iff_not]; omega, hnone, ?_⟩
    exact hentries

end Tracebox
