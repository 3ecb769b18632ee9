import Tracebox.Stream.Faults
import Tracebox.Storage.Growth
import Tracebox.Storage.Confinement

/-!
# What a stream reports

The byte budget is charged with the value that a write returns.  That value counts bytes which the
call has appended, never more; it leaves some out, since a folder overwrites the number of a new
stream's headers.

* `Reports` — a value that is not `0`, is within an estimate, and counts appended bytes.
* `Issued` — the open handles of a writer are on files that were handed out.  **A handle stays
  issued when its file is deleted**, so the reports do not depend on what is left of the directory.
* `write_reports` — **a stream reports no more than it appends**, whatever becomes of its calls.
-/

namespace Tracebox

open Bytes

/-- A value that is not `0`, is at most `need`, and counts bytes that were appended. -/
def Reports (need : ℕ) (w w' : World) (v : ℤ) : Prop :=
  v ≠ 0 ∧ v.toNat ≤ need ∧ w.tape.length + v.toNat ≤ w'.tape.length

lemma Reports.of_neg {need : ℕ} {w w' : World} {v : ℤ} (hv : v < 0)
    (hw : w.tape.length ≤ w'.tape.length) : Reports need w w' v := by
  have hz : v.toNat = 0 := Int.toNat_of_nonpos hv.le
  exact ⟨hv.ne, by omega, by omega⟩

/-- The sum of a record and what came before it, as an `int`. -/
lemma toInt_reports {n : ℕ} (hpos : 0 < n) (hlt : n < 2 ^ 32) :
    toInt n ≠ 0 ∧ (toInt n).toNat ≤ n := by
  rw [toInt, Int.bmod]
  split_ifs <;> omega

lemma World.Grows.length_tape {w w' : World} (h : w.Grows w') : w.tape.length ≤ w'.tape.length :=
  h.tape.length_le

lemma World.Extends.length_tape {w w' : World} {t : List (ℕ × UInt8)} (h : w.Extends w' t) :
    w'.tape.length = w.tape.length + t.length := by
  rw [h.tape, List.length_append]

namespace StreamWriter

variable {host : Host} {w w' : World} {s s' : StreamWriter}

/-- The open handles are on files that were handed out. -/
structure Issued (w : World) (s : StreamWriter) : Prop where
  index : ∀ f, live s.index_ = some f → f.inode < w.inodes
  data : ∀ f, live s.data_ = some f → f.inode < w.inodes

lemma Inside.issued {dir : Path} (h : Inside dir w s) : Issued w s where
  index f hf := by
    obtain ⟨name, hname⟩ := h.index f hf
    exact w.linked _ _ hname
  data f hf := by
    obtain ⟨name, hname⟩ := h.data f hf
    exact w.linked _ _ hname

lemma Issued.mono (h : Issued w s) (hw : w.inodes ≤ w'.inodes) : Issued w' s :=
  ⟨fun f hf => (h.index f hf).trans_le hw, fun f hf => (h.data f hf).trans_le hw⟩

/-- A handle that was just opened. -/
lemma open_issued {dir : Path} {rel : Bytes}
    (h : (FileIo.open_ host dir rel w).1.is_open = true) :
    (FileIo.open_ host dir rel w).1.inode < (FileIo.open_ host dir rel w).2.inodes := by
  unfold FileIo.open_ at h ⊢
  split at h
  · rename_i p _ _
    split at h
    · rename_i i hi
      exact w.linked p i hi
    · simp [FileIo.unopened] at h
    · exact Nat.lt_succ_self _
  · simp [FileIo.unopened] at h

lemma blocks_reports (host : Host) {f : FileIo} (flush : Bool) (blocks : List Bytes)
    (hf : f.inode < w.inodes)
    (h : (tryAll (blocks.map (f.write host) ++ flushIf host flush f) w).1 = true) :
    (tryAll (blocks.map (f.write host) ++ flushIf host flush f) w).2.tape.length =
      w.tape.length + blocks.flatten.length := by
  rw [(tryAll_blocks flush blocks hf h).1.length_tape, Tape.length_tag]

lemma writeHeader_reports (host : Host) {f : FileIo} (hf : f.is_open = true → f.inode < w.inodes)
    (time_ns : UInt64) (type : UInt8) :
    Reports sizeofLogFileHeader w (s.writeHeader host f time_ns type w).2
      (s.writeHeader host f time_ns type w).1 := by
  have hgrows := (s.writeHeader_reaches host (fun _ => True) f time_ns type w).grows.length_tape
  by_cases hv : 0 ≤ (s.writeHeader host f time_ns type w).1
  · have hopen : f.is_open = true := by
      by_contra hopen
      have hneg : ¬ (0 : ℤ) ≤ -EINVAL := by decide
      rw [writeHeader, if_neg hopen] at hv
      exact hneg hv
    obtain ⟨heq, hext⟩ := writeHeader_pos (hf hopen) hv
    have hlen := hext.length_tape
    rw [Tape.length_tag, LogFileHeader.length_encode] at hlen
    refine ⟨by rw [heq]; decide, by rw [heq]; decide, ?_⟩
    rw [hlen, heq, Int.toNat_natCast]
  · exact .of_neg (not_le.mp hv) hgrows

/-- A value reported after another one. -/
lemma reports_add {m n : ℕ} {w₀ : World} {u v : ℤ} (h₁ : Reports m w₀ w u)
    (h₂ : Reports n w w' v) (hu : 0 < u) (hv : 0 < v) : Reports (m + n) w₀ w' (u + v) := by
  obtain ⟨-, hle₁, htape₁⟩ := h₁
  obtain ⟨-, hle₂, htape₂⟩ := h₂
  exact ⟨by omega, by omega, by omega⟩

lemma dataHeaderStage_reports (host : Host) (s : StreamWriter) (file_name : Bytes)
    (time_ns : UInt64) (w : World) :
    Reports sizeofLogFileHeader w (dataHeaderStage host s file_name time_ns w).2
      (dataHeaderStage host s file_name time_ns w).1 := by
  have hopen : w.Grows (FileIo.open_ host s.folder_ (file_name ++ dotData) w).2 :=
    (FileIo.reaches_open (D := fun _ => True) _ _ w).grows
  have hneg : (-EINVAL : ℤ) < 0 := by decide
  simp only [dataHeaderStage]
  split_ifs with ho
  · obtain ⟨hne, hle, htape⟩ := s.writeHeader_reports host (fun _ => open_issued ho)
      time_ns kDataFile
    exact ⟨hne, hle, (Nat.add_le_add_right hopen.length_tape _).trans htape⟩
  · exact .of_neg hneg hopen.length_tape

/-- **New files** report their headers. -/
lemma reopenData_reports (s : StreamWriter) (file_name : Bytes) (index : FileIo) (time_ns : UInt64)
    {result : ℤ} {w₀ : World} (hresult : Reports sizeofLogFileHeader w₀ w result)
    (hpos : 0 < result) {v : ℤ}
    (h : (s.reopenData host file_name index time_ns result w).1 = .ret v) :
    Reports (2 * sizeofLogFileHeader) w₀
      (s.reopenData host file_name index time_ns result w).2.2 v := by
  have hstage := dataHeaderStage_reports host s file_name time_ns w
  obtain ⟨s₁, heq⟩ := s.reopenData_eq host file_name index time_ns result w
  rw [heq] at h ⊢
  split_ifs at h ⊢ with hneg
  · cases h
    obtain ⟨-, -, htape₁⟩ := hresult
    obtain ⟨-, -, htape₂⟩ := hstage
    have hle : w₀.tape.length ≤
        (dataHeaderStage host s file_name time_ns w).2.tape.length := by omega
    exact .of_neg hneg hle
  · cases h
    have hpos' := lt_of_le_of_ne (not_lt.mp hneg) hstage.1.symm
    rw [Nat.two_mul]
    exact reports_add hresult hstage hpos hpos'

lemma reopenFile_reports (host : Host) (s : StreamWriter) (time_ns : UInt64) (w : World) {v : ℤ}
    (h : (s.reopenFile host time_ns w).1 = .ret v) :
    Reports (2 * sizeofLogFileHeader) w (s.reopenFile host time_ns w).2.2 v := by
  simp only [reopenFile] at h ⊢
  split at h
  · cases h
  · cases h
  · rename_i file_name _
    have hopen : w.Grows (FileIo.open_ host s.folder_ (file_name ++ dotIdx) w).2 :=
      (FileIo.reaches_open (D := fun _ => True) _ _ w).grows
    simp only [reopenAs] at h ⊢
    by_cases ho : (FileIo.open_ host s.folder_ (file_name ++ dotIdx) w).1.is_open = true
    · simp only [ho, not_true_eq_false, if_false] at h ⊢
      obtain ⟨s₁, hs₁⟩ : ∃ s₁ : StreamWriter, s₁ = { s with
        offset_ := 0, index_ := some (FileIo.open_ host s.folder_ (file_name ++ dotIdx) w).1 } :=
        ⟨_, rfl⟩
      have hhead := s₁.writeHeader_reports host (fun _ => open_issued ho) time_ns kIndexFile
      rw [← hs₁] at h ⊢
      generalize s₁.writeHeader host (FileIo.open_ host s.folder_ (file_name ++ dotIdx) w).1
        time_ns
        kIndexFile (FileIo.open_ host s.folder_ (file_name ++ dotIdx) w).2 = r at hhead h ⊢
      have hfirst : Reports sizeofLogFileHeader w r.2 r.1 := by
        obtain ⟨hne, hle, htape⟩ := hhead
        exact ⟨hne, hle, (Nat.add_le_add_right hopen.length_tape _).trans htape⟩
      by_cases hr : r.1 ≤ 0
      · simp only [hr, if_true] at h ⊢
        cases h
        exact .of_neg (lt_of_le_of_ne hr hfirst.1) (le_trans (Nat.le_add_right _ _) hfirst.2.2)
      · simp only [hr, if_false] at h ⊢
        by_cases hsize : s.record_size_ = 0
        · simp only [hsize, if_true] at h ⊢
          exact reopenData_reports s₁ file_name _ time_ns hfirst (not_le.mp hr) h
        · simp only [hsize, if_false] at h ⊢
          cases h
          exact ⟨hfirst.1, hfirst.2.1.trans (by decide), hfirst.2.2⟩
    · simp only [ho, Bool.false_eq_true, not_false_eq_true, if_true] at h ⊢
      cases h
      exact .of_neg (by decide) hopen.length_tape

/-- **A record of variable size** reports what it appends, with what `result` counts. -/
lemma commitRecord_reports {fi fd : FileIo} (flush : Bool) (time_ns : UInt64) {data : Bytes}
    {result : ℕ} {w₀ : World} (hi : s.index_ = some fi) (hd : s.data_ = some fd)
    (hin : fi.inode < w.inodes) (hdin : fd.inode < w.inodes) (hdata : data.length < 2 ^ 31)
    (hresult : result ≤ 2 * sizeofLogFileHeader)
    (hbefore : w₀.tape.length + result ≤ w.tape.length) {v : ℤ}
    (h : (s.commitRecord host flush time_ns data result w).1 = .ret v) :
    Reports (122 + data.length) w₀ (s.commitRecord host flush time_ns data result w).2.2 v := by
  have hneg : (- EIO : ℤ) < 0 := by decide
  have hlen : (UInt32.ofNat data.length).toNat = data.length := by
    rw [UInt32.toNat_ofNat']
    omega
  have hgrows : w.Grows (dataStage host fd flush time_ns data w).2 :=
    (tryAll_blocks_reaches host (fun _ => True) fd flush _ w).grows
  have hlater := hgrows.length_tape
  rw [commitRecord_eq hi hd] at h ⊢
  by_cases h1 : (dataStage host fd flush time_ns data w).1 = true
  · rw [if_pos h1] at h ⊢
    have hstage : (dataStage host fd flush time_ns data w).2.tape.length =
        w.tape.length + (12 + data.length) := by
      refine (blocks_reports host flush _ hdin h1).trans ?_
      simp only [List.flatten_cons, List.flatten_nil, List.append_nil, List.length_append,
        length_toLE, hlen, List.take_length]
      omega
    cases hinject : s.inject host (dataStage host fd flush time_ns data w).2 with
    | none =>
        rw [hinject] at h
        cases h
    | some w₁ =>
        have hsame := (inject_extends hinject).1
        have hlen₁ := hsame.length_tape
        have hin₁ : fi.inode < w₁.inodes := by
          rw [hsame.inodes]
          exact hin.trans_le hgrows.inodes
        simp only [hinject] at h ⊢
        by_cases h3 : (indexStage host s fi flush time_ns w₁).1 = true
        · have hlast : (indexStage host s fi flush time_ns w₁).2.tape.length =
              w₁.tape.length + 12 := by
            refine (blocks_reports host flush _ hin₁ h3).trans ?_
            simp only [List.flatten_cons, List.flatten_nil, List.append_nil, List.length_append,
              length_toLE]
          rw [if_pos h3] at h ⊢
          simp only [Outcome.ret.injEq] at h
          have hsum : ((result : ℤ) + (totalLength data : ℤ)) =
              ((result + 24 + data.length : ℕ) : ℤ) := by
            rw [totalLength, hlen]
            push_cast
            ring
          rw [hsum] at h
          simp only [sizeofLogFileHeader] at hresult
          obtain ⟨hne, hle⟩ := toInt_reports (n := result + 24 + data.length)
            (by omega) (by omega)
          rw [h] at hne hle
          simp only [List.length_nil] at hlen₁
          have htape : w₀.tape.length + v.toNat ≤
              (indexStage host s fi flush time_ns w₁).2.tape.length := by omega
          exact ⟨hne, by omega, htape⟩
        · have hgrows₁ := (tryAll_blocks_reaches host (fun _ => True) fi flush
            [toLE 8 time_ns.toNat, toLE 4 s.offset_.toNat] w₁).grows.length_tape
          change w₁.tape.length ≤ (indexStage host s fi flush time_ns w₁).2.tape.length
            at hgrows₁
          rw [if_neg h3] at h ⊢
          cases h
          simp only [List.length_nil] at hlen₁
          have htape : w₀.tape.length ≤
            (indexStage host s fi flush time_ns w₁).2.tape.length := by
            omega
          exact .of_neg hneg htape
  · have htape : w₀.tape.length ≤ (dataStage host fd flush time_ns data w).2.tape.length := by
      omega
    rw [if_neg h1] at h ⊢
    cases h
    exact .of_neg hneg htape

lemma writeFixed_reports {f : FileIo} (flush : Bool) (time_ns : UInt64) {data : Bytes}
    (hin : f.inode < w.inodes) (hdata : data.length < 2 ^ 31) {v : ℤ}
    (h : (s.writeFixed host f flush time_ns data w).1 = .ret v) :
    Reports (122 + data.length) w (s.writeFixed host f flush time_ns data w).2.2 v := by
  have hio : (- EIO : ℤ) < 0 := by decide
  have hinval : (- EINVAL : ℤ) < 0 := by decide
  have hgrows := (tryAll_blocks_reaches host (fun _ => True) f flush
    [toLE 8 time_ns.toNat, data] w).grows.length_tape
  have hall := blocks_reports host flush [toLE 8 time_ns.toNat, data] hin
  simp only [List.map_cons, List.map_nil, List.flatten_cons, List.flatten_nil, List.append_nil,
    List.length_append, length_toLE] at hgrows hall
  simp only [writeFixed] at h ⊢
  split_ifs at h ⊢ with hsize hok
  · simp only [Outcome.ret.injEq] at h
    rw [← hsize] at h
    obtain ⟨hne, hle⟩ := toInt_reports (n := data.length + sizeofFixedRecordIdx)
      (by simp only [sizeofFixedRecordIdx]; omega) (by simp only [sizeofFixedRecordIdx]; omega)
    rw [h] at hne hle
    simp only [sizeofFixedRecordIdx] at hle
    have hlen := hall hok
    exact ⟨hne, by omega, by dsimp only; omega⟩
  · cases h
    exact .of_neg hio hgrows
  · cases h
    exact .of_neg hinval le_rfl

lemma reopenData_issued (hs : Issued w s) (file_name : Bytes) (index : FileIo) (time_ns : UInt64)
    (result : ℤ) : Issued (s.reopenData host file_name index time_ns result w).2.2
      (s.reopenData host file_name index time_ns result w).2.1 := by
  have hopen : w.Grows (FileIo.open_ host s.folder_ (file_name ++ dotData) w).2 :=
    (FileIo.reaches_open (D := fun _ => True) _ _ w).grows
  have hissued : (FileIo.open_ host s.folder_ (file_name ++ dotData) w).1.is_open = true → _ :=
    open_issued
  simp only [reopenData]
  generalize FileIo.open_ host s.folder_ (file_name ++ dotData) w = o at hopen hissued ⊢
  have hhead : o.2.Grows (if o.1.is_open then s.writeHeader host o.1 time_ns kDataFile o.2
      else (-EINVAL, o.2)).2 := by
    split_ifs
    · exact (writeHeader_reaches host (fun _ => True) s o.1 time_ns kDataFile o.2).grows
    · exact .refl _
  generalize (if o.1.is_open then s.writeHeader host o.1 time_ns kDataFile o.2
    else (-EINVAL, o.2)) = r at hhead ⊢
  have hindex : ∀ f, live s.index_ = some f → f.inode < r.2.inodes := fun f hf =>
    ((hs.index f hf).trans_le hopen.inodes).trans_le hhead.inodes
  have hdata : ∀ f, live (some o.1) = some f → f.inode < r.2.inodes := by
    intro f hf
    obtain ⟨hof, hfopen⟩ := live_eq_some_iff.mp hf
    cases hof
    exact (hissued hfopen).trans_le hhead.inodes
  split
  · refine ⟨fun f hf => ?_, hdata⟩
    rw [live_close] at hf
    cases hf
  · exact ⟨hindex, hdata⟩

/-- The handles behind `reopenFile` are issued as well. -/
lemma reopenFile_issued (host : Host) (hs : Issued w s) (time_ns : UInt64) :
    Issued (s.reopenFile host time_ns w).2.2 (s.reopenFile host time_ns w).2.1 := by
  simp only [reopenFile]
  split
  · exact ⟨hs.index, hs.data⟩
  · exact ⟨hs.index, hs.data⟩
  · rename_i file_name _
    have hopen : w.Grows (FileIo.open_ host s.folder_ (file_name ++ dotIdx) w).2 :=
      (FileIo.reaches_open (D := fun _ => True) _ _ w).grows
    have hissued : (FileIo.open_ host s.folder_ (file_name ++ dotIdx) w).1.is_open = true → _ :=
      open_issued
    simp only [reopenAs]
    generalize FileIo.open_ host s.folder_ (file_name ++ dotIdx) w = o at hopen hissued ⊢
    have hnew : Issued o.2 { s with offset_ := 0, index_ := some o.1 } := by
      refine ⟨fun f hf => ?_, fun f hf => (hs.data f hf).trans_le hopen.inodes⟩
      obtain ⟨hof, hfopen⟩ := live_eq_some_iff.mp hf
      cases hof
      exact hissued hfopen
    split
    · exact hnew
    · have hhead := (writeHeader_reaches host (fun _ => True) { s with
        offset_ := 0, index_ := some o.1 } o.1 time_ns kIndexFile o.2).grows.inodes
      generalize writeHeader host { s with offset_ := 0, index_ := some o.1 } o.1 time_ns kIndexFile
        o.2 = r at hhead ⊢
      have hkept := hnew.mono hhead
      split
      · refine ⟨fun f hf => ?_, hkept.data⟩
        rw [live_close] at hf
        cases hf
      · split
        · exact reopenData_issued hkept file_name o.1 time_ns r.1
        · exact ⟨hkept.index, hkept.data⟩

/-- With a positive value both new files are open. -/
lemma reopenData_open {s : StreamWriter} {file_name : Bytes} {index : FileIo} {time_ns : UInt64}
    {result v : ℤ} (h : (s.reopenData host file_name index time_ns result w).1 = .ret v)
    (hv : 0 < v) (hindex : ∃ f, live s.index_ = some f) :
    (∃ f, live (s.reopenData host file_name index time_ns result w).2.1.index_ = some f) ∧
      ∃ f, live (s.reopenData host file_name index time_ns result w).2.1.data_ = some f := by
  simp only [reopenData] at h ⊢
  generalize FileIo.open_ host s.folder_ (file_name ++ dotData) w = o at h ⊢
  have hdata : 0 ≤ (if o.1.is_open then s.writeHeader host o.1 time_ns kDataFile o.2
      else (-EINVAL, o.2)).1 → o.1.is_open = true := by
    intro h
    by_contra hclosed
    rw [if_neg hclosed] at h
    exact absurd h (by decide : ¬ (0 : ℤ) ≤ -EINVAL)
  generalize (if o.1.is_open then s.writeHeader host o.1 time_ns kDataFile o.2
    else (-EINVAL, o.2)) = r at h hdata ⊢
  by_cases hneg : r.1 < 0
  · simp only [hneg, if_true, Outcome.ret.injEq] at h
    omega
  · simp only [hneg, if_false]
    exact ⟨hindex, o.1, live_eq_some_iff.mpr ⟨rfl, hdata (not_lt.mp hneg)⟩⟩

lemma reopenFile_open (host : Host) (s : StreamWriter) (time_ns : UInt64) (w : World) {v : ℤ}
    (h : (s.reopenFile host time_ns w).1 = .ret v) (hv : 0 < v) (hsize : s.record_size_ = 0) :
    (∃ f, live (s.reopenFile host time_ns w).2.1.index_ = some f) ∧
      ∃ f, live (s.reopenFile host time_ns w).2.1.data_ = some f := by
  have hneg : ¬ (0 : ℤ) < -EINVAL := by decide
  simp only [reopenFile] at h ⊢
  split at h
  · cases h
  · cases h
  · simp only [reopenAs, hsize, if_true] at h ⊢
    split at h
    · simp only [Outcome.ret.injEq] at h
      omega
    · rename_i hopen
      rw [if_neg hopen]
      split at h
      · simp only [Outcome.ret.injEq] at h
        omega
      · rename_i hr
        rw [if_neg hr]
        exact reopenData_open h hv ⟨_, live_eq_some_iff.mpr ⟨rfl, not_not.mp hopen⟩⟩

/-- A record of a stream of variable-size records. -/
lemma writeVariable_reports (hs : Issued w s) (flush : Bool) (time_ns : UInt64) {data : Bytes}
    {fi : FileIo} (hindex : live s.index_ = some fi) (hsize : s.record_size_ = 0)
    (hdata : data.length < 2 ^ 31) {v : ℤ}
    (h : (s.writeVariable host flush time_ns data w).1 = .ret v) :
    Reports (122 + data.length) w (s.writeVariable host flush time_ns data w).2.2 v := by
  have hinval : (- EINVAL : ℤ) < 0 := by decide
  simp only [writeVariable] at h ⊢
  cases hd : live s.data_ with
  | none =>
      simp only [hd] at h ⊢
      cases h
      exact .of_neg hinval le_rfl
  | some fd =>
      simp only [hd] at h ⊢
      by_cases hroll : s.rollover data = true
      · -- a new pair of files, whose headers count as well
        have hclose := (s.closeFile_reaches host (fun _ => True) w).grows
        have hclosed : Issued (s.closeFile host w).2 (s.closeFile host w).1 := by
          refine ⟨fun f hf => ?_, fun f hf => ?_⟩
          · rw [closeFile, live_closeHandle] at hf
            cases hf
          · rw [closeFile, live_closeHandle] at hf
            cases hf
        have hcsize : (s.closeFile host w).1.record_size_ = 0 := hsize
        have hreports := fun u => reopenFile_reports host (s.closeFile host w).1 time_ns
          (s.closeFile host w).2 (v := u)
        have hissued := reopenFile_issued host hclosed time_ns
        have hopen := fun u => reopenFile_open host (s.closeFile host w).1 time_ns
          (s.closeFile host w).2 (v := u)
        simp only [hroll, if_true] at h ⊢
        generalize (s.closeFile host w).1.reopenFile host time_ns (s.closeFile host w).2 = r
          at h hreports hissued hopen ⊢
        obtain ⟨out, s₁, w₁⟩ := r
        cases out with
        | ret u =>
            obtain ⟨hne, hle, htape⟩ := hreports u rfl
            have hbefore : w.tape.length + u.toNat ≤ w₁.tape.length :=
              (Nat.add_le_add_right hclose.length_tape _).trans htape
            by_cases hu : u ≤ 0
            · simp only [hu, if_true] at h ⊢
              cases h
              exact .of_neg (lt_of_le_of_ne hu hne) (le_trans (Nat.le_add_right _ _) hbefore)
            · simp only [hu, if_false] at h ⊢
              obtain ⟨⟨fi', hi'⟩, fd', hd'⟩ := hopen u rfl (not_le.mp hu) hcsize
              have hcast : ((u.toNat : ℕ) : ℤ) = u := Int.toNat_of_nonneg (not_le.mp hu).le
              rw [← hcast] at h ⊢
              exact commitRecord_reports flush time_ns (live_eq_some_iff.mp hi').1
                (live_eq_some_iff.mp hd').1 (hissued.index fi' hi') (hissued.data fd' hd') hdata hle
                hbefore h
        | thrown => cases h
        | hangs => cases h
      · simp only [hroll, Bool.false_eq_true, if_false] at h ⊢
        have hzero : w.tape.length + 0 ≤ w.tape.length := le_rfl
        exact commitRecord_reports flush time_ns (live_eq_some_iff.mp hindex).1
          (live_eq_some_iff.mp hd).1 (hs.index fi hindex) (hs.data fd hd) hdata (Nat.zero_le _)
          hzero h

/-- **A stream reports no more than it appends**, and never `0`. -/
theorem write_reports (hs : Issued w s) (time_ns : UInt64) {data : Bytes}
    (hdata : data.length < 2 ^ 31) {v : ℤ} (h : (s.write host time_ns data w).1 = .ret v) :
    Reports (122 + data.length) w (s.write host time_ns data w).2.2 v := by
  have hinval : (- EINVAL : ℤ) < 0 := by decide
  simp only [write] at h ⊢
  cases hindex : live s.index_ with
  | none =>
      simp only [hindex] at h ⊢
      cases h
      exact .of_neg hinval le_rfl
  | some fi =>
      simp only [hindex] at h ⊢
      by_cases hsize : s.record_size_ ≠ 0
      · rw [if_pos hsize] at h ⊢
        exact writeFixed_reports (w := (w.now host).2) _ time_ns (hs.index fi hindex) hdata h
      · rw [if_neg hsize] at h ⊢
        exact writeVariable_reports (w := (w.now host).2) ⟨hs.index, hs.data⟩ _ time_ns hindex
          (not_not.mp hsize) hdata
          h

end StreamWriter

end Tracebox
