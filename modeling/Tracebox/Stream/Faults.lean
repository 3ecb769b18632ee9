import Tracebox.Lib.Machine
import Tracebox.Stream.Ledger

/-!
# Failed writes in the middle of a run

The position of the next record is kept in memory (`offset_`) and moves only when a whole write
succeeds.  A write that fails after some of its bytes reached a file leaves the two apart, and the
next record is looked up in the wrong place.

The exceptions are the writes that fail **without a trace in the current pair of files**: those
refused because the handles are closed, those whose first append keeps nothing, and those that fail
to open the new pair on a rollover, after which the writer accepts nothing any more.  `Steady` says
that a call is one of these or meets no failure at all, in terms of the state before the call and
of what the host will do.

* `write_balanced` — one steady call keeps the books.
* `faults_survived` — **a run of steady calls**: every accepted record is read back at its
  position.
* `torn_write_misleads` — a run with one torn write, whose next record is read back wrong.
-/

namespace Tracebox

open Bytes

/-- The complete entries in an index file of variable-size records. -/
def World.entries (w : World) (inode : ℕ) : ℕ :=
  ((w.content inode).length - sizeofLogFileHeader) / 12

namespace StreamWriter

section Conditions

variable (host : Host)

/-- A run that notes for each accepted record the index file it went to and its position there. -/
def runAt (s : StreamWriter) :
    List Record → World → List (ℕ × ℕ × Record) × StreamWriter × World
  | [], w => ([], s, w)
  | r :: rs, w =>
      let o := s.write host r.time_ns r.data w
      let rest := runAt o.2.1 rs o.2.2
      ((if o.1.positive then [(o.2.1.indexInode, w.entries o.2.1.indexInode, r)] else []) ++
        rest.1, rest.2)

/-- One call of a caller that goes on with whatever the call leaves behind. -/
def writeStep (x : StreamWriter × World) (r : Record) : Option (StreamWriter × World) :=
  some (x.1.write host r.time_ns r.data x.2).2

/-- From call number `n` on, the host lets everything pass that a record needs. -/
def Passes (s : StreamWriter) (flush : Bool) (n : ℕ) : Prop :=
  (∀ k < 3 + flushCalls flush, host.outcome (n + k) = .ok) ∧
    (s.fault_injector_ = true → host.outcome (n + (3 + flushCalls flush)) ≠ .throws) ∧
    ∀ k < 2 + flushCalls flush,
      host.outcome (n + (3 + flushCalls flush) + s.injectCalls + k) = .ok

instance (s : StreamWriter) (flush : Bool) (n : ℕ) : Decidable (s.Passes host flush n) :=
  inferInstanceAs (Decidable (_ ∧ _ ∧ _))

/-- Call number `n` fails and appends nothing. -/
def FailsClean (n : ℕ) : Prop := host.outcome n = .fail 0 ∨ host.outcome n = .throws

instance (n : ℕ) : Decidable (FailsClean host n) := inferInstanceAs (Decidable (_ ∨ _))

/-- A rollover finds a free name in a directory that is still there, and the host lets its calls
pass: two flushes of the old files, whose results are not looked at, then two files opened with
their headers. -/
def Reopens (s : StreamWriter) (time_ns : UInt64) (w : World) : Prop :=
  (∃ name, s.freshName host time_ns w.tree = .found name ∧
    ∃ p, w.tree.resolve s.folder_ (name ++ dotIdx) = .ok p) ∧
    ∀ k < 6, host.outcome (w.calls + 2 + k) = .ok

/-- Whatever fails in this call fails without a trace in the current files. -/
def Steady (s : StreamWriter) (r : Record) (w : World) : Prop :=
  live s.index_ = none ∨
    (s.rollover r.data = true ∧ ¬ s.Reopens host r.time_ns w) ∨
    (s.Passes host (s.flushDue host w) (w.calls + if s.rollover r.data then 8 else 0) ∨
      FailsClean host (w.calls + if s.rollover r.data then 8 else 0))

end Conditions

variable {host : Host}

/-! ## One record -/

/-- When the host lets everything pass, the record is committed. -/
lemma committed_of_passes {s : StreamWriter} {i d : ℕ} {flush : Bool} {time_ns : UInt64}
    {data : Bytes} {w : World} (hd : d < w.inodes) (h : s.Passes host flush w.calls) :
    ∃ w', Committed host s ⟨i, true⟩ ⟨d, true⟩ flush time_ns data w w' := by
  obtain ⟨h1, h2, h3⟩ := h
  have hdata : (dataStage host ⟨d, true⟩ flush time_ns data w).1 = true :=
    (tryAll_blocks_iff flush _).mpr h1
  have hcalls : (dataStage host ⟨d, true⟩ flush time_ns data w).2.calls =
      w.calls + (3 + flushCalls flush) := (tryAll_blocks flush _ hd hdata).2
  obtain ⟨w₁, hw₁⟩ : ∃ w₁, s.inject host
    (dataStage host ⟨d, true⟩ flush time_ns data w).2 =
      some w₁ := by
    unfold inject
    split_ifs with hf hthrow
    · rw [hcalls] at hthrow
      exact absurd hthrow (h2 hf)
    · exact ⟨_, rfl⟩
    · exact ⟨_, rfl⟩
  refine ⟨_, w₁, hdata, hw₁, (tryAll_blocks_iff flush _).mpr fun k hk => ?_, rfl⟩
  rw [(inject_extends hw₁).2, hcalls]
  exact h3 k hk

/-- When the first append fails and keeps nothing, nothing happened. -/
lemma commitRecord_failsClean {s : StreamWriter} {fi fd : FileIo} (hi : s.index_ = some fi)
    (hd : s.data_ = some fd) {flush : Bool} {time_ns : UInt64} {data : Bytes} {result : ℤ}
    {w : World} (h : FailsClean host w.calls) :
    ∃ w', s.commitRecord host flush time_ns data result w = (.ret (- EIO), s, w') ∧
      w.Extends w' [] := by
  have hfirst : (fd.write host (toLE 8 time_ns.toNat) w).1 = false := by
    rw [← Bool.not_eq_true, FileIo.write_iff]
    rcases h with h | h <;> simp [h]
  have hstage : dataStage host fd flush time_ns data w =
      (false, (fd.write host (toLE 8 time_ns.toNat) w).2) := by
    simp only [dataStage, List.map_cons, List.cons_append, tryAll, hfirst, Bool.false_eq_true,
      if_false]
  rw [commitRecord_eq hi hd, hstage]
  exact ⟨_, rfl, FileIo.write_keeps_nothing h⟩

/-! ## A failed rollover -/

/-- Writing a header adds to the file it is written to. -/
lemma writeHeader_adds (host : Host) (s : StreamWriter) {n : ℕ} {f : FileIo} (hn : n ≤ f.inode)
    (time_ns : UInt64) (type : UInt8) (w : World) :
    w.Adds n (s.writeHeader host f time_ns type w).2 := by
  have hw : w.Adds n (f.write host (s.header time_ns type).encode w).2 :=
    FileIo.adds_write hn _ w
  unfold writeHeader
  split_ifs with hopen
  · simp only [tryAll]
    split_ifs
    all_goals first
      | exact hw.trans (FileIo.adds_flush n f _)
      | exact hw
  · exact World.Adds.of_extends (World.Extends.of_eq rfl rfl rfl) (by simp)

/-- A handle on a path that named nothing is a handle on a new file. -/
lemma le_inode_open {n : ℕ} {dir : Path} {rel : Bytes} {w w₁ : World} (ha : w.Adds n w₁)
    (hn : n ≤ w.inodes) (hopen : (FileIo.open_ host dir rel w₁).1.is_open = true)
    (hfree : ∀ p, w₁.tree.resolve dir rel = .ok p → w.tree.lookup p = none) :
    n ≤ (FileIo.open_ host dir rel w₁).1.inode := by
  unfold FileIo.open_ at hopen ⊢
  split at hopen
  · rename_i p _ hp
    split at hopen
    · rename_i i hi
      by_contra hlt
      have hold := ha.files p i (not_le.mp hlt) hi
      rw [hfree p hp] at hold
      cases hold
    · simp [FileIo.unopened] at hopen
    · exact hn.trans ha.inodes
  · simp [FileIo.unopened] at hopen

/-- The data file is created and gets its header. -/
def dataHeaderStage (host : Host) (s : StreamWriter) (file_name : Bytes) (time_ns : UInt64)
    (w : World) : ℤ × World :=
  let o := FileIo.open_ host s.folder_ (file_name ++ dotData) w
  if o.1.is_open then s.writeHeader host o.1 time_ns kDataFile o.2 else (-EINVAL, o.2)

lemma reopenData_eq (host : Host) (s : StreamWriter) (file_name : Bytes) (index : FileIo)
    (time_ns : UInt64) (result : ℤ) (w : World) : ∃ s₁ : StreamWriter,
      s.reopenData host file_name index time_ns result w =
        if (dataHeaderStage host s file_name time_ns w).1 < 0 then
          (.ret (dataHeaderStage host s file_name time_ns w).1, { s₁ with
            index_ := some index.close }, (dataHeaderStage host s file_name time_ns w).2)
        else s₁.opened host (result + (dataHeaderStage host s file_name time_ns w).1)
          (dataHeaderStage host s file_name time_ns w).2 :=
  ⟨_, rfl⟩

lemma reopenData_closed {s s' : StreamWriter} {file_name : Bytes} {index : FileIo}
    {time_ns : UInt64} {result : ℤ} {w w' : World} {out : Outcome} (hresult : 0 < result)
    (h : s.reopenData host file_name index time_ns result w = (out, s', w'))
    (hout : out.positive = false) : live s'.index_ = none := by
  obtain ⟨s₁, heq⟩ := s.reopenData_eq host file_name index time_ns result w
  rw [heq] at h
  split_ifs at h with hr
  · cases h
    exact live_close index
  · simp only [opened, Prod.mk.injEq] at h
    rw [← h.1, Outcome.positive, decide_eq_false_iff_not] at hout
    omega

/-- A `reopenFile` that fails leaves the index file closed. -/
lemma reopenFile_closed {s s' : StreamWriter} {time_ns : UInt64} {w w' : World} {out : Outcome}
    (h : s.reopenFile host time_ns w = (out, s', w')) (hclosed : live s.index_ = none)
    (hout : out.positive = false) : live s'.index_ = none := by
  simp only [reopenFile] at h
  split at h
  · cases h
    exact hclosed
  · cases h
    exact hclosed
  · simp only [reopenAs] at h
    split at h
    · rename_i hopen
      cases h
      simpa [live] using hopen
    · split at h
      · cases h
        exact live_close _
      · rename_i hr
        split at h
        · exact reopenData_closed (not_le.mp hr) h hout
        · simp only [opened, Prod.mk.injEq] at h
          rw [← h.1, Outcome.positive, decide_eq_false_iff_not] at hout
          omega

lemma reopenData_adds {n : ℕ} {s : StreamWriter} {file_name : Bytes} {index : FileIo}
    {time_ns : UInt64} {result : ℤ} {w : World} (hn : n ≤ w.inodes)
    (hin : (FileIo.open_ host s.folder_ (file_name ++ dotData) w).1.is_open = true →
      n ≤ (FileIo.open_ host s.folder_ (file_name ++ dotData) w).1.inode) :
    w.Adds n (s.reopenData host file_name index time_ns result w).2.2 := by
  have ha : w.Adds n (FileIo.open_ host s.folder_ (file_name ++ dotData) w).2 :=
    FileIo.adds_open hn s.folder_ (file_name ++ dotData)
  have hadds : w.Adds n (dataHeaderStage host s file_name time_ns w).2 := by
    simp only [dataHeaderStage]
    split_ifs with hopen
    · exact ha.trans (writeHeader_adds host s (hin hopen) _ _ _)
    · exact ha
  obtain ⟨s₁, heq⟩ := s.reopenData_eq host file_name index time_ns result w
  rw [heq]
  split_ifs
  · exact hadds
  · exact hadds.trans (World.Adds.of_extends (now_extends host _) (by simp))

/-- Whatever comes of `reopenFile`, the files that were there are not touched. -/
lemma reopenFile_adds (host : Host) (s : StreamWriter) (time_ns : UInt64) (w : World)
    (h0 : (0 : UInt8) ∉ s.name_) : w.Adds w.inodes (s.reopenFile host time_ns w).2.2 := by
  have hself : w.Adds w.inodes w :=
    World.Adds.of_extends (World.Extends.of_eq rfl rfl rfl) (by simp)
  simp only [reopenFile]
  split
  · exact hself
  · exact hself
  · rename_i file_name hfound
    obtain ⟨hcand, hidx, hdata⟩ := searchName_found (Or.inl rfl) hfound
    have hnul : (0 : UInt8) ∉ file_name := notMem_candidate (by decide) (by decide) h0 hcand
    have ha₁ : w.Adds w.inodes (FileIo.open_ host s.folder_ (file_name ++ dotIdx) w).2 :=
      FileIo.adds_open le_rfl s.folder_ (file_name ++ dotIdx)
    simp only [reopenAs]
    split
    · exact ha₁
    · rename_i hopen
      rw [not_not] at hopen
      obtain ⟨p, hp, -⟩ := open_inv hopen
      obtain ⟨q, leaf, rfl, -, hfree, hbeside⟩ := fresh_pair hnul hidx hdata hp
      have hin := le_inode_open hself le_rfl hopen fun _ hp => notMem_of_exists_false hidx hp
      have ha₂ := ha₁.trans (writeHeader_adds host { s with
        offset_ := 0, index_ := some (FileIo.open_ host s.folder_ (file_name ++ dotIdx) w).1 }
        hin time_ns kIndexFile _)
      split
      · exact ha₂
      · split
        · refine ha₂.trans (reopenData_adds ha₂.inodes fun hd => ?_)
          refine le_inode_open ha₂ le_rfl hd fun p' hp' => ?_
          rw [Except.ok.inj (hp'.symm.trans (hbeside _ ha₂.lookup))]
          exact hfree
        · exact ha₂.trans (World.Adds.of_extends (now_extends host _) (by simp))

/-- A handle that is open was let through. -/
lemma open_passed {dir : Path} {rel : Bytes} {w : World}
    (hopen : (FileIo.open_ host dir rel w).1.is_open = true) :
    host.outcome w.calls = .ok ∧ (FileIo.open_ host dir rel w).2.calls = w.calls + 1 := by
  unfold FileIo.open_ at hopen ⊢
  split at hopen
  · rename_i p hok hp
    refine ⟨hok, ?_⟩
    split <;> simp
  · simp [FileIo.unopened] at hopen

/-- A header that was written took two calls that were let through. -/
lemma writeHeader_passed {s : StreamWriter} {f : FileIo} {time_ns : UInt64} {type : UInt8}
    {w : World} (h : 0 ≤ (s.writeHeader host f time_ns type w).1) :
    host.outcome w.calls = .ok ∧ host.outcome (w.calls + 1) = .ok ∧
      (s.writeHeader host f time_ns type w).2.calls = w.calls + 2 := by
  have hneg : ¬ (0 : ℤ) ≤ - EIO ∧ ¬ (0 : ℤ) ≤ -EINVAL := by decide
  have hopen : f.is_open = true := by
    by_contra hopen
    simp only [writeHeader, hopen, if_false] at h
    exact hneg.2 h
  have hwrite : (f.write host (s.header time_ns type).encode w).1 = true := by
    by_contra hwrite
    simp only [writeHeader, tryAll, hopen, hwrite, if_true, if_false, Bool.false_eq_true] at h
    exact hneg.1 h
  have hflush : (f.flush host (f.write host (s.header time_ns type).encode w).2).1 = true := by
    by_contra hflush
    simp only [writeHeader, tryAll, hopen, hwrite, hflush, if_true, if_false,
      Bool.false_eq_true] at h
    exact hneg.1 h
  simp only [writeHeader, tryAll, hopen, hwrite, hflush, if_true]
  rw [FileIo.write_iff] at hwrite
  rw [FileIo.flush_iff, FileIo.calls_write] at hflush
  exact ⟨hwrite, hflush, by rw [FileIo.calls_flush, FileIo.calls_write]⟩

/-- The same for the data file of a new pair. -/
lemma dataHeaderStage_passed {s : StreamWriter} {file_name : Bytes} {time_ns : UInt64} {w : World}
    (h : 0 ≤ (dataHeaderStage host s file_name time_ns w).1) :
    (∀ k < 3, host.outcome (w.calls + k) = .ok) ∧
      (dataHeaderStage host s file_name time_ns w).2.calls = w.calls + 3 := by
  have hneg : ¬ (0 : ℤ) ≤ -EINVAL := by decide
  simp only [dataHeaderStage] at h ⊢
  by_cases hopen : (FileIo.open_ host s.folder_ (file_name ++ dotData) w).1.is_open = true
  · simp only [hopen, if_true] at h ⊢
    obtain ⟨o1, c1⟩ := open_passed hopen
    obtain ⟨o2, o3, c3⟩ := writeHeader_passed h
    rw [c1] at o2 o3 c3
    refine ⟨fun k hk => ?_, c3⟩
    interval_cases k
    · exact o1
    · exact o2
    · exact o3
  · simp only [hopen, if_false, Bool.false_eq_true] at h
    exact absurd h hneg

/-- A successful `reopenFile` of a stream of variable-size records made six calls, and all of them
were let through. -/
lemma reopenFile_passed {s s' : StreamWriter} {time_ns : UInt64} {w w' : World} {v : ℤ}
    (h : s.reopenFile host time_ns w = (.ret v, s', w')) (hv : 0 < v)
    (hsize : s.record_size_ = 0) :
    (∃ name, s.freshName host time_ns w.tree = .found name ∧
      ∃ p, w.tree.resolve s.folder_ (name ++ dotIdx) = .ok p) ∧
    (∀ k < 6, host.outcome (w.calls + k) = .ok) ∧ w'.calls = w.calls + 6 := by
  have hneg : ¬ (0 : ℤ) < -EINVAL := by decide
  simp only [reopenFile] at h
  split at h
  · simp at h
  · simp at h
  · rename_i file_name hfound
    simp only [reopenAs, hsize, if_true] at h
    split at h
    · simp only [Prod.mk.injEq, Outcome.ret.injEq] at h
      omega
    · rename_i hopen
      rw [not_not] at hopen
      obtain ⟨p, hp, -⟩ := open_inv hopen
      obtain ⟨o1, c1⟩ := open_passed hopen
      split at h
      · simp only [Prod.mk.injEq, Outcome.ret.injEq] at h
        omega
      · rename_i hr
        obtain ⟨o2, o3, c3⟩ := writeHeader_passed (not_le.mp hr).le
        obtain ⟨s₁, heq⟩ := reopenData_eq host _ file_name _ time_ns _ _
        rw [heq] at h
        split_ifs at h with hr'
        · simp only [Prod.mk.injEq, Outcome.ret.injEq] at h
          omega
        · obtain ⟨o4, c6⟩ := dataHeaderStage_passed (not_lt.mp hr')
          simp only [opened, Prod.mk.injEq] at h
          rw [c1] at o2 o3 c3
          rw [c3] at o4 c6
          refine ⟨⟨file_name, hfound, p, hp⟩, fun k hk => ?_, by rw [← h.2.2]; exact c6⟩
          by_cases h3 : k < 3
          · interval_cases k
            · exact o1
            · exact o2
            · exact o3
          · have := o4 (k - 3) (by omega)
            rwa [show w.calls + 1 + 2 + (k - 3) = w.calls + k by omega] at this

/-! ## Keeping the books in spite of failures -/

/-- The books balance, and the writer is closed or has a pair of them open. -/
structure Balanced (s : StreamWriter) (channel : Bytes) (w : World) (log : List (ℕ × Record))
    (pairs : List FilePair) : Prop where
  books : Books channel 0 w log pairs
  current : live s.index_ = none ∨ ∃ f ∈ pairs, s.Writes f.stream f.index f.data

/-- No pair is lost, and each only gets longer. -/
def Carries (pairs pairs' : List FilePair) : Prop :=
  ∀ f ∈ pairs, ∃ g ∈ pairs', g.index = f.index ∧ f.stream.records <+: g.stream.records

lemma Carries.refl (pairs : List FilePair) : Carries pairs pairs :=
  fun f hf => ⟨f, hf, rfl, List.prefix_rfl⟩

lemma Carries.trans {ps qs rs : List FilePair} (h₁ : Carries ps qs) (h₂ : Carries qs rs) :
    Carries ps rs := by
  intro f hf
  obtain ⟨g, hg, hgi, hgp⟩ := h₁ f hf
  obtain ⟨k, hk, hki, hkp⟩ := h₂ g hg
  exact ⟨k, hk, hki.trans hgi, hgp.trans hkp⟩

lemma carries_bump (pairs : List FilePair) (i : ℕ) (r : Record) :
    Carries pairs (pairs.map (Books.bump i r)) := by
  intro f hf
  refine ⟨_, List.mem_map_of_mem hf, Books.index_bump i r f, ?_⟩
  unfold Books.bump
  split_ifs
  · exact List.prefix_append _ _
  · exact List.prefix_rfl

/-- The record stands at a position of an index file of the books. -/
def StandsAt (pairs : List FilePair) (inode pos : ℕ) (r : Record) : Prop :=
  ∃ f ∈ pairs, f.index = inode ∧ f.stream.records[pos]? = some r

lemma StandsAt.carried {pairs pairs' : List FilePair} {inode pos : ℕ} {r : Record}
    (h : StandsAt pairs inode pos r) (hc : Carries pairs pairs') :
    StandsAt pairs' inode pos r := by
  obtain ⟨f, hf, hi, hr⟩ := h
  obtain ⟨g, hg, hgi, hgp⟩ := hc f hf
  obtain ⟨t, ht⟩ := hgp
  refine ⟨g, hg, hgi.trans hi, ?_⟩
  rw [← ht, List.getElem?_append_left (List.getElem?_eq_some_iff.mp hr).1]
  exact hr

variable {s s' : StreamWriter} {channel : Bytes} {w w' : World} {log : List (ℕ × Record)}
  {pairs : List FilePair}

/-- The index of a kept pair shows how many records it has. -/
lemma entries_of_kept {f : FilePair} (hk : f.Kept w) (h0 : f.stream.record_size = 0) :
    w.entries f.index = f.stream.records.length := by
  rw [World.entries, hk.content_index, Stream.length_index fun h => absurd h0 h, Stream.entrySize,
    if_pos h0]
  omega

/-- **One record into the current pair**, with no failure or with a clean one. -/
lemma commitRecord_balanced {f : FilePair} {flush : Bool} {r : Record} {result : ℤ}
    {out : Outcome} (hb : Books channel 0 w log pairs) (hf : f ∈ pairs)
    (hw : s.Writes f.stream f.index f.data)
    (hfit : f.stream.endOffset + 12 + r.data.length ≤ UINT32_MAX)
    (hhost : s.Passes host flush w.calls ∨ FailsClean host w.calls)
    (h : s.commitRecord host flush r.time_ns r.data result w = (out, s', w')) :
    ∃ log' pairs', s'.Balanced channel w' log' pairs' ∧ Carries pairs pairs' ∧
      (out.positive = true → s'.indexInode = f.index ∧
        StandsAt pairs' f.index f.stream.records.length r) := by
  obtain ⟨-, h0⟩ := hb.named f hf
  have hk := hb.kept f hf
  rcases hhost with hpass | hclean
  · obtain ⟨w₁, hcom⟩ := committed_of_passes (hk.data_lt h0) hpass
    obtain ⟨h1, h2⟩ := committed_extends hw h0 hk.index_lt (hk.data_lt h0) hfit hcom
    rw [commitRecord_of_committed hw.index (hw.data h0) hcom] at h
    cases h
    have hbump : Books.bump f.index r f = f.push r := if_pos rfl
    have hmem : f.push r ∈ pairs.map (Books.bump f.index r) := by
      rw [← hbump]
      exact List.mem_map_of_mem hf
    have hs := (hb.sound f hf).push (fun h => absurd h0 h) fun _ => hfit
    refine ⟨_, _, ⟨hb.append hf h2 hs, Or.inr ⟨f.push r, hmem, h1⟩⟩,
      carries_bump _ _ _, fun _ =>
      ⟨h1.indexInode, f.push r, hmem, rfl, ?_⟩⟩
    simp [FilePair.push, Stream.push]
  · obtain ⟨w₁, heq, e⟩ := commitRecord_failsClean hw.index (hw.data h0) hclean
    rw [heq] at h
    cases h
    exact ⟨log, pairs, ⟨hb.of_extends_nil e, Or.inr ⟨f, hf, hw⟩⟩, Carries.refl _, by
      simp [Outcome.positive, EIO]⟩

/-- Closing a pair that is open makes two calls. -/
lemma calls_closeFile (host : Host) (w : World) {i d : ℕ} (hi : s.index_ = some ⟨i, true⟩)
    (hd : s.data_ = some ⟨d, true⟩) : (s.closeFile host w).2.calls = w.calls + 2 := by
  simp only [closeFile, closeHandle, hi, hd, live, Option.filter_some, if_true]
  simp

/-- A new pair joins the books with nothing in it yet. -/
lemma Opened.balanced {time_ns : UInt64} {q : Path} {leaf : Bytes} (hsize : s.record_size_ = 0)
    (hb : Books s.name_ 0 w log pairs) (ho : Opened host s s' w w' time_ns [] q leaf) :
    Books s.name_ 0 w' log (pairs ++ [FilePair.ofOpened s w time_ns [] q leaf]) := by
  have hs : (s.stream time_ns []).Sound := ⟨fun _ => by simp [stream], fun _ => by
    simp [stream, Stream.endOffset, sizeofLogFileHeader, UINT32_MAX]⟩
  have := Books.enter (hsize ▸ hb) ho hs
  rw [hsize] at this
  simpa using this

/-- **A rollover**: it fails and the writer is closed, or the record goes to a new pair. -/
lemma rollover_balanced {f : FilePair} {flush : Bool} {r : Record} {out : Outcome}
    (hb : Books channel 0 w log pairs) (hf : f ∈ pairs) (hw : s.Writes f.stream f.index f.data)
    (hnul : (0 : UInt8) ∉ channel) (hlen : r.data.length + 61 ≤ UINT32_MAX)
    (hroll : s.rollover r.data = true)
    (hhost : s.Reopens host r.time_ns w → s.Passes host flush (w.calls + 8) ∨
      FailsClean host (w.calls + 8))
    (h : s.writeVariable host flush r.time_ns r.data w = (out, s', w')) :
    ∃ log' pairs', s'.Balanced channel w' log' pairs' ∧ Carries pairs pairs' ∧
      (out.positive = true → StandsAt pairs' s'.indexInode (w.entries s'.indexInode) r) := by
  obtain ⟨hn, h0⟩ := hb.named f hf
  obtain rfl : channel = s.name_ := hn.symm.trans hw.name.symm
  have hsize : s.record_size_ = 0 := hw.size.trans h0
  have hlive : live s.data_ = some ⟨f.data, true⟩ := by rw [hw.data h0]; rfl
  have hclosed := (live_closeFile host s w).1
  have hcalls := calls_closeFile host w hw.index (hw.data h0)
  obtain ⟨c, hc⟩ : ∃ c, c = s.closeFile host w := ⟨_, rfl⟩
  have e₀ : w.Extends c.2 [] := hc ▸ closeFile_extends s w
  have hcs : c.1 = { s with index_ := c.1.index_, data_ := c.1.data_ } := by rw [hc]; rfl
  have hname : c.1.name_ = s.name_ := by rw [hcs]
  have hb₀ := hb.of_extends_nil e₀
  rw [← hc] at hclosed hcalls
  simp only [writeVariable, hlive, hroll, if_true, ← hc] at h
  obtain ⟨⟨out₁, s₁, w₁⟩, hre⟩ : ∃ x, x = c.1.reopenFile host r.time_ns c.2 :=
    ⟨_, rfl⟩
  have hadds := reopenFile_adds host c.1 r.time_ns c.2 (by rw [hname]; exact hnul)
  rw [← hre] at hadds h
  by_cases hpos : out₁.positive = true
  · obtain ⟨v, rfl, hv⟩ := Outcome.positive_iff.mp hpos
    have hcsize : c.1.record_size_ = 0 := by rw [hcs]; exact hsize
    obtain ⟨⟨name, hfound, p, hp⟩, hpass, hcalls₁⟩ := reopenFile_passed hre.symm hv hcsize
    have hreopens : s.Reopens host r.time_ns w := by
      refine ⟨⟨name, ?_, p, ?_⟩, fun k hk => by rw [← hcalls]; exact hpass k hk⟩
      · rw [e₀.tree, hcs] at hfound
        exact hfound
      · rw [e₀.tree, hcs] at hp
        exact hp
    obtain ⟨-, q, leaf, ho⟩ := reopenFile_pos hre.symm hv (by rw [hname]; exact hnul)
    have ho' : Opened host s s₁ w w₁ r.time_ns [] q leaf :=
      ho.congr (by rw [hcs]) (by rw [hcs]) (by rw [hcs]) (by rw [hcs]) e₀
    have hb₁ := ho'.balanced hsize hb
    have hnew := List.mem_append_right pairs
      (List.mem_singleton_self (FilePair.ofOpened s w r.time_ns [] q leaf))
    simp only [not_le.mpr hv, if_false] at h
    have hhost₁ : s₁.Passes host flush w₁.calls ∨ FailsClean host w₁.calls := by
      rw [hcalls₁, hcalls]
      have hinj := ho'.injector
      simpa only [Passes, injectCalls, hinj] using hhost hreopens
    obtain ⟨log', pairs', hbal, hcarry, hstands⟩ :=
      commitRecord_balanced hb₁ hnew ho'.writes (by
      simp only [FilePair.ofOpened, stream, Stream.endOffset, sizeofLogFileHeader, List.map_nil,
        List.sum_nil]
      omega) hhost₁ h
    refine ⟨log', pairs', hbal, Carries.trans (fun g hg => ⟨g, List.mem_append_left _ hg, rfl,
      List.prefix_rfl⟩) hcarry, fun hout => ?_⟩
    obtain ⟨hi, hst⟩ := hstands hout
    -- the new index file was empty before, so the record is its first
    have hpos0 : w.entries w.inodes = 0 := by
      rw [World.entries, World.content_of_le le_rfl]
      rfl
    rw [hi]
    change StandsAt pairs' w.inodes (w.entries w.inodes) r
    rw [hpos0]
    exact hst
  · have hdead := reopenFile_closed hre.symm hclosed (by simpa using hpos)
    have hfail : out.positive = false ∧ s' = s₁ ∧ w' = w₁ := by
      cases out₁ with
      | ret v =>
          have hv : v ≤ 0 := by simpa [Outcome.positive] using hpos
          simp only [hv, if_true, Prod.mk.injEq] at h
          exact ⟨by rw [← h.1]; simpa using hpos, h.2.1.symm, h.2.2.symm⟩
      | thrown => cases h; exact ⟨rfl, rfl, rfl⟩
      | hangs => cases h; exact ⟨rfl, rfl, rfl⟩
    obtain ⟨hout, rfl, rfl⟩ := hfail
    exact ⟨log, pairs, ⟨hb₀.adds hadds, Or.inl hdead⟩, Carries.refl _, by simp [hout]⟩

/-- **One steady call** keeps the books, and an accepted record stands at the position its index
file had reached. -/
lemma write_balanced {r : Record} {out : Outcome} (hb : s.Balanced channel w log pairs)
    (hnul : (0 : UInt8) ∉ channel) (hlen : r.data.length + 61 ≤ UINT32_MAX)
    (hsteady : s.Steady host r w) (h : s.write host r.time_ns r.data w = (out, s', w')) :
    ∃ log' pairs', s'.Balanced channel w' log' pairs' ∧ Carries pairs pairs' ∧
      (out.positive = true → StandsAt pairs' s'.indexInode (w.entries s'.indexInode) r) := by
  by_cases hdead : live s.index_ = none
  · simp only [write, hdead] at h
    cases h
    exact ⟨log, pairs, hb, Carries.refl _, by simp [Outcome.positive, EINVAL]⟩
  obtain ⟨f, hf, hw⟩ := hb.current.resolve_left hdead
  obtain ⟨hn, h0⟩ := hb.books.named f hf
  have hk := hb.books.kept f hf
  have hlive : live s.index_ = some ⟨f.index, true⟩ := by rw [hw.index]; rfl
  have hliveData : live s.data_ = some ⟨f.data, true⟩ := by rw [hw.data h0]; rfl
  have hb₀ := hb.books.of_extends_nil (now_extends host w)
  simp only [write, hlive, hw.size, h0, ne_eq, not_true_eq_false, if_false] at h
  have hhost := hsteady.resolve_left hdead
  by_cases hroll : s.rollover r.data = true
  · simp only [hroll, if_true, true_and] at hhost
    exact rollover_balanced (w := (w.now host).2) hb₀ hf hw hnul hlen hroll
      (fun hre => hhost.resolve_left (not_not.mpr hre)) h
  · simp only [hroll, false_and, false_or, if_false, Bool.false_eq_true, Nat.add_zero] at hhost
    have hfit : f.stream.endOffset + 12 + r.data.length ≤ UINT32_MAX := by
      have hmod : (UInt32.ofNat r.data.length).toNat = r.data.length := by
        rw [UInt32.toNat_ofNat']
        unfold UINT32_MAX at hlen
        omega
      simp only [rollover, totalLength, hmod, hw.offset h0, decide_eq_true_eq] at hroll
      omega
    simp only [writeVariable, hliveData, hroll, if_false, Bool.false_eq_true] at h
    obtain ⟨log', pairs', hbal, hcarry, hstands⟩ :=
      commitRecord_balanced hb₀ hf hw hfit hhost h
    refine ⟨log', pairs', hbal, hcarry, fun hout => ?_⟩
    obtain ⟨hi, hst⟩ := hstands hout
    rw [hi, entries_of_kept hk h0]
    exact hst

/-- **A run of steady calls**: every accepted record stands where its index file says. -/
lemma runAt_balanced {records : List Record} {entries : List (ℕ × ℕ × Record)}
    (hb : s.Balanced channel w log pairs) (hnul : (0 : UInt8) ∉ channel)
    (hlen : ∀ r ∈ records, r.data.length + 61 ≤ UINT32_MAX)
    (hsteady : Machine.Throughout (writeStep host) (fun x r => x.1.Steady host r x.2)
      (s, w) records)
    (hrun : s.runAt host records w = (entries, s', w')) :
    ∃ log' pairs', s'.Balanced channel w' log' pairs' ∧ Carries pairs pairs' ∧
      ∀ e ∈ entries, e.2.2 ∈ records ∧ StandsAt pairs' e.1 e.2.1 e.2.2 := by
  induction records generalizing s w log pairs entries with
  | nil =>
      cases hrun
      exact ⟨log, pairs, hb, Carries.refl _, by simp⟩
  | cons r rs ih =>
      obtain ⟨⟨out, s₁, w₁⟩, ho⟩ : ∃ o, o = s.write host r.time_ns r.data w :=
        ⟨_, rfl⟩
      obtain ⟨⟨rest, s₂, w₂⟩, hr⟩ : ∃ o, o = s₁.runAt host rs w₁ := ⟨_, rfl⟩
      have hstep : writeStep host (s, w) r = some (s₁, w₁) := by rw [writeStep, ← ho]
      obtain ⟨hnow, hlater⟩ := (Machine.throughout_cons_iff hstep).mp hsteady
      simp only [runAt, ← ho, ← hr, Prod.mk.injEq] at hrun
      obtain ⟨rfl, rfl, rfl⟩ := hrun
      obtain ⟨log₁, pairs₁, hb₁, hcarry₁, hstands⟩ :=
        write_balanced hb hnul (hlen r List.mem_cons_self) hnow ho.symm
      obtain ⟨log₂, pairs₂, hb₂, hcarry₂, hall⟩ := ih hb₁
        (fun x hx => hlen x (List.mem_cons_of_mem _ hx)) hlater hr.symm
      refine ⟨log₂, pairs₂, hb₂, hcarry₁.trans hcarry₂, fun e he => ?_⟩
      rcases List.mem_append.mp he with he | he
      · split_ifs at he with hout
        · rw [List.mem_singleton.mp he]
          exact ⟨List.mem_cons_self, (hstands hout).carried hcarry₂⟩
        · simp at he
      · obtain ⟨hmem, hst⟩ := hall e he
        exact ⟨List.mem_cons_of_mem _ hmem, hst⟩

end StreamWriter

open StreamWriter

/-- **Going on after a failed write.**  A stream of variable-size records is opened and written to
by a caller that goes on after errors.  If every call is steady, then every record whose write
returned a positive value is returned, with its own time and payload, by a read at its position in
the index file it went to, in whatever order the records of that file are read. -/
theorem faults_survived {host : Host} {s₀ s s' : StreamWriter} {request : LogRequest}
    {w₀ w w' : World} {out : Outcome} {records : List Record} {log : List (ℕ × ℕ × Record)}
    (hopen : s₀.openFile host request w₀ = (out, s, w)) (hout : out.positive = true)
    (hvar : request.size = 0) (hname : request.channel.length ≤ 31)
    (hnul : (0 : UInt8) ∉ request.channel)
    (hrec : ∀ r ∈ records, r.time_ns ≠ 0 ∧ r.data.length + 61 ≤ UINT32_MAX)
    (hsteady : Machine.Throughout (writeStep host) (fun x r => x.1.Steady host r x.2)
      (s, w) records)
    (hrun : s.runAt host records w = (log, s', w')) (overrun : Path → Bytes) :
    ∀ e ∈ log, ∃ p, (∀ q, w'.tree.lookup q = some (.file e.1) ↔ q = p) ∧
      (IsIndexPath p → ∀ es : List (ℕ × ℕ × Record),
        (∀ x ∈ es, x ∈ log ∧ x.1 = e.1) →
        ((StreamReader.make (w'.view (fun _ i => w'.content i) overrun) p).reads
          (es.map fun x => x.2.1)).1 = es.map fun x => some x.2.2.piece) := by
  obtain ⟨v, rfl, hv⟩ := Outcome.positive_iff.mp hout
  obtain ⟨pairs₀, hl⟩ := openFile_ledger hopen hv hnul
  rw [hvar] at hl
  have hb : s.Balanced request.channel w [] pairs₀ := ⟨hl.books, Or.inr hl.current⟩
  obtain ⟨log', pairs, hbal, -, hall⟩ :=
    runAt_balanced hb hnul (fun r hr => (hrec r hr).2) hsteady hrun
  intro e he
  obtain ⟨-, f, hf, hfi, -⟩ := hall e he
  have hlk := hbal.books.linked f hf
  obtain ⟨hc, h0⟩ := hbal.books.named f hf
  have hfits : f.stream.Fits :=
    (hbal.books.sound f hf).fits (hc ▸ hname) (hc ▸ hnul) fun h => absurd h0 h
  refine ⟨f.indexPath, fun q => by rw [← hfi]; exact hlk.index q, fun hidx es hes => ?_⟩
  refine FilePair.reads_whole overrun (hbal.books.kept f hf) hlk hfits hidx _ _ es fun x hx => ?_
  obtain ⟨hlog, hxe⟩ := hes x hx
  obtain ⟨hmem, g, hg, hgi, hget⟩ := hall x hlog
  obtain rfl : g = f := hbal.books.shelved.eq_of_index hg hf (by rw [hgi, hxe, hfi])
  exact ⟨hget, (hrec _ hmem).1⟩

/-- A host on which call number `n` fails before its first byte. -/
def faultyHost (n : ℕ) : Host :=
  { Host.january with outcome := fun k => if k = n then .fail 0 else .ok }

/-- A stream of variable-size records that was opened there with six calls. -/
def faultyOpened (n : ℕ) : Outcome × StreamWriter × World :=
  ({ folder_ := [ascii "r"] } : StreamWriter).openFile (faultyHost n)
    { channel := ascii "a", size := 0, data := [], time_ns := 1704067200000000000 }
    (.bare [ascii "r"])

/-- Two records given to it. -/
def faultyRun (n : ℕ) : List (ℕ × ℕ × Record) × StreamWriter × World :=
  (faultyOpened n).2.1.runAt (faultyHost n)
    [⟨1704067200000000000, [1, 2]⟩, ⟨1704067201000000000, [3, 4]⟩] (faultyOpened n).2.2

/-- What the reader returns at the first position. -/
def faultyRead (n : ℕ) : List (Option DataPiece) :=
  ((StreamReader.make ((faultyRun n).2.2.view (fun _ i => (faultyRun n).2.2.content i) fun _ => [])
    (indexPath [ascii "r"] (ascii "000000_a_0"))).reads [0]).1

/-- The first append of the first record fails, and the second record is read back. -/
theorem faults_survived_clean :
    (faultyRun 6).1 = [(0, 0, ⟨1704067201000000000, [3, 4]⟩)] ∧
      faultyRead 6 = [some ⟨1704067201000000000, [3, 4], 0⟩] := by
  have hlog : (faultyRun 6).1 = [(0, 0, ⟨1704067201000000000, [3, 4]⟩)] := by decide +kernel
  refine ⟨hlog, ?_⟩
  obtain ⟨p, hp, hread⟩ := @faults_survived (faultyHost 6) { folder_ := [ascii "r"] }
    (faultyOpened 6).2.1 (faultyRun 6).2.1 _ _ (faultyOpened 6).2.2 (faultyRun 6).2.2 _
    [⟨1704067200000000000, [1, 2]⟩, ⟨1704067201000000000, [3, 4]⟩] (faultyRun 6).1
    rfl (by decide +kernel) rfl (by decide +kernel) (by decide +kernel) (by decide +kernel)
    ⟨Or.inr (Or.inr (Or.inr (by decide +kernel))), Or.inr (Or.inr (Or.inl (by decide +kernel))),
      trivial⟩ rfl (fun _ => []) (0, 0, ⟨1704067201000000000, [3, 4]⟩) (by decide +kernel)
  obtain rfl := (hp (indexPath [ascii "r"] (ascii "000000_a_0"))).mp (by decide +kernel)
  exact hread (by decide +kernel) [(0, 0, ⟨1704067201000000000, [3, 4]⟩)]
    (by decide +kernel)

/-- The payload of the first record is not appended, after its time and size were.  The next write
returns a positive value, and its record is read back with the time of the torn one and the payload
`[0, 202]`: the offset in its index entry is where the torn record begins, and the size there counts
into the bytes of the new record's time. -/
theorem torn_write_misleads :
    (faultyRun 8).1 = [(0, 0, ⟨1704067201000000000, [3, 4]⟩)] ∧
      (faultyRun 8).2.2.tree.lookup (indexPath [ascii "r"] (ascii "000000_a_0")) =
        some (.file 0) ∧
      IsIndexPath (indexPath [ascii "r"] (ascii "000000_a_0")) ∧
      faultyRead 8 = [some ⟨1704067200000000000, [0, 202], 0⟩] := by
  refine ⟨by decide +kernel, by decide +kernel, by decide +kernel, by decide +kernel⟩

end Tracebox
