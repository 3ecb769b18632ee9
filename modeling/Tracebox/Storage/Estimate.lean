import Tracebox.Storage.Reports
import Tracebox.Stream.Crash
import Tracebox.Stream.Places

/-!
# Reported sizes and the admission estimate

`Storage` charges its budget with what a write returns and makes room for what `maxRecordSize`
estimates.  Both are numbers of appended bytes.

* `Reported` — **a positive value is exactly the number of bytes the call appended**, and they
  went to the files the writer has open afterwards: `openFile_reported`, `write_reported`.
* `Costs` — an upper bound on what a call appends, whatever it returns: one lemma for each
  operation, along its calls.
* `folder_write_costs` — **one write of a folder stays within the estimate**.  The estimate counts
  two headers and one record.  The channel is opened or rolls over, never both, because the offset
  of a new stream is far from its limit.
-/

namespace Tracebox

open Bytes

/-! ## Upper bounds -/

/-- At most `n` bytes were appended. -/
def World.Costs (n : ℕ) (w w' : World) : Prop := w'.tape.length ≤ w.tape.length + n

namespace World.Costs

variable {m n : ℕ} {w w₁ w' : World}

lemma refl (w : World) : Costs 0 w w := le_rfl

lemma trans (h₁ : Costs m w w₁) (h₂ : Costs n w₁ w') : Costs (m + n) w w' := by
  unfold Costs at *
  omega

lemma mono (h : Costs m w w') (hle : m ≤ n) : Costs n w w' := by
  unfold Costs at *
  omega

lemma of_extends (h : w.Extends w' []) : Costs 0 w w' := by
  rw [Costs, h.length_tape]
  exact le_rfl

end World.Costs

open World (Costs)

namespace StreamWriter

variable {host : Host} {s s' : StreamWriter} {w w' : World}

lemma write_call_costs (host : Host) (f : FileIo) (bytes : Bytes) (w : World) :
    Costs bytes.length w (f.write host bytes w).2 := by
  have hrecord : ∀ bs : Bytes, bs.length ≤ bytes.length →
      Costs bytes.length w (w.record (.append f.inode bs)).called := by
    intro bs hle
    by_cases hf : f.inode < w.inodes
    · have hlen := (World.extends_record hf bs).length_tape
      rw [Tape.length_tag] at hlen
      rw [Costs, World.tape_called, hlen]
      omega
    · have hsame : w.record (.append f.inode bs) = w := by
        simp [World.record, IoEvent.inode, hf]
      rw [hsame]
      exact (Costs.refl w).mono (Nat.zero_le _)
  unfold FileIo.write
  split
  · exact hrecord bytes le_rfl
  · exact hrecord _ (List.length_take_le' _ _)
  · exact (Costs.refl w).mono (Nat.zero_le _)

lemma open_costs (host : Host) (dir : Path) (rel : Bytes) (w : World) :
    Costs 0 w (FileIo.open_ host dir rel w).2 := by
  unfold FileIo.open_
  split
  · split
    · exact Costs.refl w
    · exact Costs.refl w
    · exact Costs.refl w
  · exact Costs.refl w

/-- Blocks cost their bytes, also when the calls stop on the way. -/
lemma blocks_costs (host : Host) (f : FileIo) (flush : Bool) (blocks : List Bytes) (w : World) :
    Costs blocks.flatten.length w
      (tryAll (blocks.map (f.write host) ++ flushIf host flush f) w).2 := by
  induction blocks generalizing w with
  | nil =>
      cases flush with
      | false => exact Costs.refl w
      | true =>
          simp only [List.map_nil, List.nil_append, flushIf, if_true, tryAll]
          split_ifs
          · exact Costs.of_extends (FileIo.flush_extends f w)
          · exact Costs.of_extends (FileIo.flush_extends f w)
  | cons b blocks ih =>
      have hone := write_call_costs host f b w
      simp only [List.map_cons, List.cons_append, tryAll, List.flatten_cons, List.length_append]
      split_ifs
      · exact hone.trans (ih _)
      · exact hone.mono (Nat.le_add_right _ _)

lemma writeHeader_costs (host : Host) (s : StreamWriter) (f : FileIo) (time_ns : UInt64)
    (type : UInt8) (w : World) :
    Costs sizeofLogFileHeader w (s.writeHeader host f time_ns type w).2 := by
  have hblocks := blocks_costs host f true [(s.header time_ns type).encode] w
  rw [List.flatten_singleton, LogFileHeader.length_encode] at hblocks
  unfold writeHeader
  split_ifs
  · change Costs _ w
      (if (tryAll (([(s.header time_ns type).encode] : List Bytes).map (f.write host) ++
        flushIf host true f) w).1 = true then _ else _ : ℤ × World).2
    split_ifs
    · exact hblocks
    · exact hblocks
  · exact (Costs.refl w).mono (Nat.zero_le _)

/-- The headers of a new stream. -/
def headersSize (s : StreamWriter) : ℕ := if s.record_size_ = 0 then 98 else 49

lemma reopenData_costs (host : Host) (s : StreamWriter) (file_name : Bytes) (index : FileIo)
    (time_ns : UInt64) (result : ℤ) (w : World) :
    Costs sizeofLogFileHeader w (s.reopenData host file_name index time_ns result w).2.2 := by
  have hopen := open_costs host s.folder_ (file_name ++ dotData) w
  simp only [reopenData]
  generalize FileIo.open_ host s.folder_ (file_name ++ dotData) w = o at hopen ⊢
  have hhead : Costs sizeofLogFileHeader o.2 (if o.1.is_open then
      s.writeHeader host o.1 time_ns kDataFile o.2 else (-EINVAL, o.2)).2 := by
    split_ifs
    · exact writeHeader_costs host s o.1 time_ns kDataFile o.2
    · exact (Costs.refl _).mono (Nat.zero_le _)
  generalize (if o.1.is_open then s.writeHeader host o.1 time_ns kDataFile o.2
    else (-EINVAL, o.2)) = r at hhead ⊢
  have hboth := (hopen.trans hhead).mono (Nat.zero_add _).le
  split
  · exact hboth
  · exact hboth

/-- **A new stream costs its headers**, of which there may be fewer when something goes wrong. -/
lemma reopenFile_costs (host : Host) (s : StreamWriter) (time_ns : UInt64) (w : World) :
    Costs s.headersSize w (s.reopenFile host time_ns w).2.2 := by
  have h49 : sizeofLogFileHeader = 49 := rfl
  simp only [reopenFile]
  split
  · exact (Costs.refl w).mono (Nat.zero_le _)
  · exact (Costs.refl w).mono (Nat.zero_le _)
  · rename_i file_name _
    have hopen := open_costs host s.folder_ (file_name ++ dotIdx) w
    simp only [reopenAs]
    generalize FileIo.open_ host s.folder_ (file_name ++ dotIdx) w = o at hopen ⊢
    have hhead := writeHeader_costs host { s with offset_ := 0, index_ := some o.1 } o.1 time_ns
      kIndexFile o.2
    have hone : Costs s.headersSize w (writeHeader host { s with offset_ := 0, index_ := some o.1 }
        o.1 time_ns kIndexFile o.2).2 := by
      refine (hopen.trans hhead).mono ?_
      unfold headersSize
      split_ifs <;> omega
    split
    · exact hopen.mono (Nat.zero_le _)
    · split
      · exact hone
      · split
        · rename_i hsize
          have hdata := reopenData_costs host
            { s with offset_ := 0, index_ := some o.1 } file_name o.1
            time_ns (writeHeader host { s with offset_ := 0, index_ := some o.1 } o.1 time_ns
              kIndexFile o.2).1 (writeHeader host { s with offset_ := 0, index_ := some o.1 } o.1
                time_ns kIndexFile o.2).2
          refine ((hopen.trans hhead).trans hdata).mono ?_
          rw [headersSize, if_pos hsize]
          omega
        · exact hone

lemma inject_costs {w₁ : World} (h : s.inject host w = some w₁) : Costs 0 w w₁ :=
  Costs.of_extends (inject_extends h).1

/-- The bytes of a record of variable size. -/
lemma commitRecord_costs (host : Host) (s : StreamWriter) (flush : Bool) (time_ns : UInt64)
    (data : Bytes) (result : ℤ) (w : World) :
    Costs (totalLength data) w (s.commitRecord host flush time_ns data result w).2.2 := by
  have hdata := blocks_costs host (s.data_.getD .unopened) flush [toLE 8 time_ns.toNat,
    toLE 4 (UInt32.ofNat data.length).toNat, data.take (UInt32.ofNat data.length).toNat] w
  have hlen : ([toLE 8 time_ns.toNat, toLE 4 (UInt32.ofNat data.length).toNat,
      data.take (UInt32.ofNat data.length).toNat] : List Bytes).flatten.length + 12 ≤
        totalLength data := by
    simp only [List.flatten_cons, List.flatten_nil, List.append_nil, List.length_append,
      length_toLE, List.length_take, totalLength]
    omega
  have hindex := fun w => blocks_costs host (s.index_.getD .unopened) flush
    [toLE 8 time_ns.toNat, toLE 4 s.offset_.toNat] w
  have hlen' : ([toLE 8 time_ns.toNat, toLE 4 s.offset_.toNat] : List Bytes).flatten.length =
    12 := by
    simp
  simp only [List.map_cons, List.map_nil] at hdata hindex
  simp only [commitRecord]
  split
  · exact hdata.mono (by omega)
  · split
    · exact hdata.mono (by omega)
    · rename_i w₁ hinj
      have hall := (hdata.trans (inject_costs hinj)).trans (hindex w₁)
      split
      · exact hall.mono (by omega)
      · exact hall.mono (by omega)

/-- The bytes of a record of fixed size. -/
lemma writeFixed_costs (host : Host) (s : StreamWriter) (f : FileIo) (flush : Bool)
    (time_ns : UInt64) (data : Bytes) (w : World) :
    Costs (8 + data.length) w (s.writeFixed host f flush time_ns data w).2.2 := by
  have hblocks := blocks_costs host f flush [toLE 8 time_ns.toNat, data] w
  simp only [List.flatten_cons, List.flatten_nil, List.append_nil, List.length_append,
    length_toLE, List.map_cons, List.map_nil] at hblocks
  simp only [writeFixed]
  split
  · split
    · exact hblocks
    · exact hblocks
  · exact (Costs.refl w).mono (Nat.zero_le _)

lemma writeVariable_costs (host : Host) (s : StreamWriter) (flush : Bool) (time_ns : UInt64)
    (data : Bytes) (w : World) (hsize : s.record_size_ = 0) :
    Costs ((if s.rollover data then 98 else 0) + totalLength data) w
      (s.writeVariable host flush time_ns data w).2.2 := by
  simp only [writeVariable]
  cases live s.data_ with
  | none => exact (Costs.refl w).mono (Nat.zero_le _)
  | some fd =>
      by_cases hroll : s.rollover data = true
      · have hclose : Costs 0 w (s.closeFile host w).2 := Costs.of_extends (closeFile_extends s w)
        have hreopen := reopenFile_costs host (s.closeFile host w).1 time_ns (s.closeFile host w).2
        have h98 : (s.closeFile host w).1.headersSize = 98 := by
          rw [headersSize, if_pos]
          exact hsize
        rw [h98] at hreopen
        have hboth := (hclose.trans hreopen).mono (Nat.zero_add 98).le
        simp only [hroll, if_true]
        generalize (s.closeFile host w).1.reopenFile host time_ns (s.closeFile host w).2 = r
          at hboth ⊢
        obtain ⟨out, s₁, w₁⟩ := r
        cases out with
        | ret ret =>
            dsimp only
            split
            · exact hboth.mono (Nat.le_add_right _ _)
            · exact hboth.trans (commitRecord_costs host s₁ flush time_ns data ret w₁)
        | thrown => exact hboth.mono (Nat.le_add_right _ _)
        | hangs => exact hboth.mono (Nat.le_add_right _ _)
      · simp only [hroll, Bool.false_eq_true, if_false]
        exact (commitRecord_costs host s flush time_ns data 0 w).mono (Nat.le_add_left _ _)

/-- **What one write of a stream can cost.** -/
lemma write_costs (host : Host) (s : StreamWriter) (time_ns : UInt64) (data : Bytes) (w : World) :
    Costs (if s.record_size_ = 0 then (if s.rollover data then 98 else 0) + totalLength data
      else 8 + data.length) w (s.write host time_ns data w).2.2 := by
  have hnow : Costs 0 w (w.now host).2 := Costs.of_extends (now_extends host w)
  simp only [write]
  cases live s.index_ with
  | none => exact (Costs.refl w).mono (Nat.zero_le _)
  | some fi =>
      by_cases hsize : s.record_size_ = 0
      · simp only [hsize, ne_eq, not_true_eq_false, if_false, if_true]
        exact (hnow.trans (writeVariable_costs host s _ time_ns data _ hsize)).mono
          (Nat.zero_add _).le
      · simp only [hsize, ne_eq, not_false_eq_true, if_true, if_false]
        exact (hnow.trans (writeFixed_costs host s _ _ time_ns data _)).mono (Nat.zero_add _).le

end StreamWriter

/-! ## One write of a folder -/

namespace Folder

variable {host : Host} {f : Folder} {w : World} {request : LogRequest}

/-- A write to an open stream, with or without a rollover. -/
lemma write_costs_le (s : StreamWriter) (time_ns : UInt64) {data : Bytes}
    (hdata : data.length < 2 ^ 31 - 256) (w : World) :
    Costs (122 + data.length) w (s.write host time_ns data w).2.2 := by
  refine (s.write_costs host time_ns data w).mono ?_
  have htotal : StreamWriter.totalLength data = 24 + data.length := by
    rw [StreamWriter.totalLength, UInt32.toNat_ofNat']
    omega
  rw [htotal]
  split_ifs <;> omega

/-- A write to a stream that was opened just now has no rollover. -/
lemma write_new_costs {s s' : StreamWriter} {w' : World} {file_name : Bytes} {p : Path} {v : ℤ}
    {time_ns : UInt64} (hc : s.Created host s' w w' time_ns file_name p v) {data : Bytes}
    (hdata : data.length < 2 ^ 31 - 256) :
    Costs (24 + data.length) w' (s'.write host time_ns data w').2.2 := by
  refine (s'.write_costs host time_ns data w').mono ?_
  have htotal : StreamWriter.totalLength data = 24 + data.length := by
    rw [StreamWriter.totalLength, UInt32.toNat_ofNat']
    omega
  by_cases hsize : s.record_size_ = 0
  · have hroll : s'.rollover data = false := by
      simp only [StreamWriter.rollover, htotal, (hc.data hsize).2.2,
        sizeofLogFileHeader, UINT32_MAX, decide_eq_false_iff_not]
      omega
    rw [hc.size, if_pos hsize, hroll, htotal]
    simp
  · rw [hc.size, if_neg hsize]
    omega

lemma writeChannel_costs (hdata : request.data.length < 2 ^ 31 - 256) :
    Costs (122 + request.data.length) w (f.writeChannel host request w).2.2 := by
  simp only [writeChannel]
  cases f.files_.lookup request.channel with
  | some s => exact write_costs_le s request.time_ns hdata w
  | none =>
      obtain ⟨s, hs⟩ : ∃ s : StreamWriter, s =
        StreamWriter.named { folder_ := f.folder_ } request :=
        ⟨_, rfl⟩
      have hopen : ({ folder_ := f.folder_ } : StreamWriter).openFile host request w =
          s.reopenFile host request.time_ns w := by rw [hs]; rfl
      have hcosts := s.reopenFile_costs host request.time_ns w
      have hcreated := fun {s' w' v} =>
        @StreamWriter.reopenFile_created host s s' request.time_ns w w' v
      have h98 : s.headersSize ≤ 98 := by
        unfold StreamWriter.headersSize
        split_ifs <;> omega
      simp only [hopen]
      generalize s.reopenFile host request.time_ns w = r at hcosts hcreated ⊢
      obtain ⟨out, s', w'⟩ := r
      cases out with
      | ret v =>
          dsimp only
          split
          · exact hcosts.mono (h98.trans (by omega))
          · rename_i hv
            obtain ⟨file_name, p, hc⟩ := hcreated rfl (not_le.mp hv)
            exact (hcosts.trans (write_new_costs hc hdata)).mono (by omega)
      | thrown => exact hcosts.mono (h98.trans (by omega))
      | hangs => exact hcosts.mono (h98.trans (by omega))

/-- Making a directory costs nothing. -/
lemma create_costs (host : Host) (f : Folder) (time_ns : UInt64) (w : World) :
    Costs 0 w (f.create host time_ns w).2.2 := by
  have hmake : ∀ p, Costs 0 w (create_directories host p w).2 := by
    intro p
    unfold create_directories
    split
    · split_ifs
      · exact Costs.refl w
      · exact Costs.refl w
    · exact Costs.refl w
    · exact Costs.refl w
  simp only [create]
  split
  · exact Costs.refl w
  · split
    · exact hmake _
    · exact hmake _
    · exact hmake _

/-- **One write of a folder stays within the estimate**, whatever becomes of it. -/
lemma folder_write_costs (f : Folder) (w : World) (hdata : request.data.length < 2 ^ 31 - 256) :
    Costs (maxRecordSize request.data.length) w (f.write host request w).2.2 := by
  rw [maxRecordSize_of_lt (by omega)]
  unfold write
  split
  · have hcreate := create_costs host f request.time_ns w
    simp only
    split
    · exact hcreate.mono (Nat.zero_le _)
    · exact hcreate.mono (Nat.zero_le _)
    · exact (hcreate.trans (writeChannel_costs hdata)).mono (Nat.zero_add _).le
  · exact writeChannel_costs hdata

end Folder

/-! ## Exact sizes -/

namespace StreamWriter

variable {host : Host} {s s' : StreamWriter} {w w' : World} {time_ns : UInt64} {v : ℤ}

/-- A value is the number of bytes that were appended, all of them to the files the writer has
open. -/
def Reported (s' : StreamWriter) (w w' : World) (v : ℤ) : Prop :=
  ∃ t, w'.tape = w.tape ++ t ∧ (t.length : ℤ) = v ∧
    ∀ e ∈ t, e.1 = s'.indexInode ∨ e.1 = s'.dataInode

lemma mem_tag {i : ℕ} {bs : Bytes} {e : ℕ × UInt8} (h : e ∈ Tape.tag i bs) : e.1 = i := by
  obtain ⟨b, -, rfl⟩ := List.mem_map.mp h
  rfl

/-- **New files**: the value is the size of the headers. -/
lemma Created.reported {file_name : Bytes} {p : Path}
    (h : Created host s s' w w' time_ns file_name p v) : Reported s' w w' v := by
  refine ⟨_, h.tape, ?_, fun e he => ?_⟩
  · rw [h.value, List.length_append, Tape.length_tag, LogFileHeader.length_encode]
    split_ifs
    · rw [Tape.length_tag, LogFileHeader.length_encode]
      rfl
    · rfl
  · rcases List.mem_append.mp he with he | he
    · exact Or.inl ((mem_tag he).trans h.indexInode.symm)
    · split_ifs at he
      · exact Or.inr (mem_tag he)
      · cases he

/-- **A record of variable size** goes to the two files that are open. -/
lemma commitRecord_appends {fi fd : FileIo} {flush : Bool} {data : Bytes} {result : ℤ}
    (hi : s.index_ = some fi) (hd : s.data_ = some fd) (hilt : fi.inode < w.inodes)
    (hdlt : fd.inode < w.inodes)
    (h : s.commitRecord host flush time_ns data result w = (.ret v, s', w')) (hv : 0 < v) :
    v = toInt (result + totalLength data) ∧ s'.index_ = s.index_ ∧ s'.data_ = s.data_ ∧
      ∃ t, w'.tape = w.tape ++ t ∧ t.length = totalLength data ∧
        ∀ e ∈ t, e.1 = s'.indexInode ∨ e.1 = s'.dataInode := by
  have hc := committed_of_pos hi hd h hv
  rw [commitRecord_of_committed hi hd hc] at h
  simp only [Prod.mk.injEq, Outcome.ret.injEq] at h
  obtain ⟨rfl, rfl, -⟩ := h
  refine ⟨rfl, rfl, rfl, _, (committed_appends hilt hdlt hc).tape, ?_, fun e he => ?_⟩
  · simp only [List.length_append, Tape.length_tag, length_toLE, List.length_take, totalLength]
    rw [UInt32.toNat_ofNat']
    omega
  · rcases List.mem_append.mp he with he | he
    · right
      rw [dataInode, hd]
      exact mem_tag he
    · left
      rw [indexInode, hi]
      exact mem_tag he

/-- **A record of fixed size** goes to the index file. -/
lemma writeFixed_reported {fi : FileIo} {flush : Bool} {data : Bytes} (hi : s.index_ = some fi)
    (hilt : fi.inode < w.inodes) (hdata : data.length < 2 ^ 31 - 256)
    (h : s.writeFixed host fi flush time_ns data w = (.ret v, s', w')) (hv : 0 < v) :
    Reported s' w w' v := by
  have hneg : ¬ (0 : ℤ) < - EIO ∧ ¬ (0 : ℤ) < - EINVAL := by decide
  have hall := @tryAll_blocks host fi flush [toLE 8 time_ns.toNat, data] w hilt
  simp only [List.map_cons, List.map_nil] at hall
  simp only [writeFixed] at h
  split_ifs at h with hsize hok
  · simp only [Prod.mk.injEq, Outcome.ret.injEq] at h
    obtain ⟨rfl, rfl, rfl⟩ := h
    refine ⟨_, (hall hok).1.tape, ?_, fun e he => ?_⟩
    · have hlen : (Tape.tag fi.inode ([toLE 8 time_ns.toNat, data] : List Bytes).flatten).length =
          s.record_size_.toNat + sizeofFixedRecordIdx := by
        simp only [Tape.length_tag, List.flatten_cons, List.flatten_nil, List.append_nil,
          List.length_append, length_toLE, hsize, sizeofFixedRecordIdx]
        omega
      rw [hlen, toInt_of_lt]
      simp only [sizeofFixedRecordIdx]
      omega
    · left
      rw [indexInode, hi]
      exact mem_tag he
  · simp only [Prod.mk.injEq, Outcome.ret.injEq] at h
    exact absurd (h.1 ▸ hv) hneg.1
  · simp only [Prod.mk.injEq, Outcome.ret.injEq] at h
    exact absurd (h.1 ▸ hv) hneg.2

/-- A write to a stream of variable-size records, with or without a rollover. -/
lemma writeVariable_reported {fi : FileIo} {flush : Bool} {data : Bytes} (hs : Issued w s)
    (hindex : live s.index_ = some fi) (hsize : s.record_size_ = 0)
    (hdata : data.length < 2 ^ 31 - 256)
    (h : s.writeVariable host flush time_ns data w = (.ret v, s', w')) (hv : 0 < v) :
    Reported s' w w' v := by
  have hinval : ¬ (0 : ℤ) < - EINVAL := by decide
  have htotal : totalLength data = 24 + data.length := by
    rw [totalLength, UInt32.toNat_ofNat']
    omega
  have hvalue : ∀ n : ℕ, n ≤ 98 → toInt ((n : ℤ) + totalLength data) = n +
    totalLength data := by
    intro n hn
    rw [htotal, ← Nat.cast_add, toInt_of_lt (by omega), Nat.cast_add]
  simp only [writeVariable] at h
  cases hd : live s.data_ with
  | none =>
      simp only [hd, Prod.mk.injEq, Outcome.ret.injEq] at h
      exact absurd (h.1 ▸ hv) hinval
  | some fd =>
      simp only [hd] at h
      by_cases hroll : s.rollover data = true
      · simp only [hroll, if_true] at h
        have e : w.Extends (s.closeFile host w).2 [] := closeFile_extends s w
        have hcsize : (s.closeFile host w).1.record_size_ = 0 := hsize
        have hcreated := fun {s₁ w₁ ret} => @reopenFile_created host (s.closeFile host w).1 s₁
          time_ns (s.closeFile host w).2 w₁ ret
        generalize (s.closeFile host w).1.reopenFile host time_ns (s.closeFile host w).2 = r
          at h hcreated
        obtain ⟨out, s₁, w₁⟩ := r
        cases out with
        | ret ret =>
            dsimp only at h
            split_ifs at h with hret
            · simp only [Prod.mk.injEq, Outcome.ret.injEq] at h
              omega
            · obtain ⟨file_name, p, hc⟩ := hcreated rfl (not_le.mp hret)
              obtain ⟨hdata₁, hdlt, -⟩ := hc.data hcsize
              obtain ⟨t₁, ht₁, hlen₁, hmem₁⟩ := hc.reported
              obtain ⟨hval, hsi, hsd, t₂, ht₂, hlen₂, hmem₂⟩ :=
                commitRecord_appends hc.index hdata₁ hc.inodes hdlt h hv
              have h98 : ret = ((98 : ℕ) : ℤ) := by
                rw [hc.value, if_pos hcsize]
                rfl
              -- the headers are in the files that the record goes to
              have hsame : s'.indexInode = s₁.indexInode ∧ s'.dataInode = s₁.dataInode := by
                rw [indexInode, indexInode, dataInode, dataInode, hsi, hsd]
                exact ⟨rfl, rfl⟩
              refine ⟨t₁ ++ t₂, ?_, ?_, fun e he => ?_⟩
              · rw [ht₂, ht₁, e.tape, List.append_nil, List.append_assoc]
              · rw [hval, h98, hvalue 98 le_rfl, List.length_append, Nat.cast_add,
                  hlen₁, hlen₂, h98]
              · rcases List.mem_append.mp he with he | he
                · rw [hsame.1, hsame.2]
                  exact hmem₁ e he
                · exact hmem₂ e he
        | thrown => cases h
        | hangs => cases h
      · simp only [hroll, Bool.false_eq_true, if_false] at h
        obtain ⟨hval, -, -, t, ht, hlen, hmem⟩ :=
          commitRecord_appends (live_eq_some_iff.mp hindex).1
          (live_eq_some_iff.mp hd).1 (hs.index fi hindex) (hs.data fd hd) h hv
        exact ⟨t, ht, by rw [hval, ← Nat.cast_zero, hvalue 0 (Nat.zero_le _), hlen,
          Nat.cast_zero, zero_add], hmem⟩

/-- **A positive value of `write`** is the number of bytes the call appended. -/
lemma write_reported (hs : Issued w s) {data : Bytes} (hdata : data.length < 2 ^ 31 - 256)
    (h : s.write host time_ns data w = (.ret v, s', w')) (hv : 0 < v) : Reported s' w w' v := by
  have hinval : ¬ (0 : ℤ) < - EINVAL := by decide
  simp only [write] at h
  cases hindex : live s.index_ with
  | none =>
      simp only [hindex, Prod.mk.injEq, Outcome.ret.injEq] at h
      exact absurd (h.1 ▸ hv) hinval
  | some fi =>
      simp only [hindex] at h
      by_cases hsize : s.record_size_ = 0
      · simp only [hsize, ne_eq, not_true_eq_false, if_false] at h
        exact writeVariable_reported (w := (w.now host).2) ⟨hs.index, hs.data⟩ hindex
          hsize hdata h hv
      · simp only [hsize, ne_eq, not_false_eq_true, if_true] at h
        exact writeFixed_reported (w := (w.now host).2) (live_eq_some_iff.mp hindex).1
          (hs.index fi hindex) hdata h hv

/-! ## Runs of a stream -/

/-- The handles are the writer's own. -/
lemma commitRecord_handles (host : Host) (s : StreamWriter) (flush : Bool) (time_ns : UInt64)
    (data : Bytes) (result : ℤ) (w : World) :
    (s.commitRecord host flush time_ns data result w).2.1.index_ = s.index_ ∧
      (s.commitRecord host flush time_ns data result w).2.1.data_ = s.data_ := by
  simp only [commitRecord]
  split
  · exact ⟨rfl, rfl⟩
  · split
    · exact ⟨rfl, rfl⟩
    · split
      · exact ⟨rfl, rfl⟩
      · exact ⟨rfl, rfl⟩

lemma commitRecord_issued (hs : Issued w s) (flush : Bool) (time_ns : UInt64) (data : Bytes)
    (result : ℤ) : Issued (s.commitRecord host flush time_ns data result w).2.2
      (s.commitRecord host flush time_ns data result w).2.1 := by
  obtain ⟨hi, hd⟩ := commitRecord_handles host s flush time_ns data result w
  have hgrows := (s.commitRecord_reaches host (fun _ => True) flush time_ns data result w).grows
  refine (Issued.mono ⟨fun f hf => ?_, fun f hf => ?_⟩ hgrows.inodes)
  · exact hs.index f (hi ▸ hf)
  · exact hs.data f (hd ▸ hf)

/-- A closed stream has no handle that could be on the wrong file. -/
lemma closeFile_issued (host : Host) (s : StreamWriter) (w : World) :
    Issued (s.closeFile host w).2 (s.closeFile host w).1 := by
  refine ⟨fun f hf => ?_, fun f hf => ?_⟩
  · rw [closeFile, live_closeHandle] at hf
    cases hf
  · rw [closeFile, live_closeHandle] at hf
    cases hf

lemma write_issued (hs : Issued w s) (time_ns : UInt64) (data : Bytes) :
    Issued (s.write host time_ns data w).2.2 (s.write host time_ns data w).2.1 := by
  have hnow : Issued (w.now host).2 s := ⟨hs.index, hs.data⟩
  simp only [write]
  cases live s.index_ with
  | none => exact hs
  | some fi =>
      by_cases hsize : s.record_size_ = 0
      · simp only [hsize, ne_eq, not_true_eq_false, if_false, writeVariable]
        cases live s.data_ with
        | none => exact hnow
        | some fd =>
            by_cases hroll : s.rollover data = true
            · simp only [hroll, if_true]
              have hreopen := reopenFile_issued host
                (closeFile_issued host s (w.now host).2) time_ns
              generalize (s.closeFile host (w.now host).2).1.reopenFile host time_ns
                (s.closeFile host (w.now host).2).2 = r at hreopen ⊢
              obtain ⟨out, s₁, w₁⟩ := r
              cases out with
              | ret ret =>
                  dsimp only
                  split
                  · exact hreopen
                  · exact commitRecord_issued hreopen _ time_ns data ret
              | thrown => exact hreopen
              | hangs => exact hreopen
            · simp only [hroll, Bool.false_eq_true, if_false]
              exact commitRecord_issued hnow _ time_ns data 0
      · simp only [hsize, ne_eq, not_false_eq_true, if_true]
        have hgrows :=
          (s.writeFixed_reaches host (fun _ => True) fi (s.flushDue host w) time_ns data
            (w.now host).2).grows
        have hsame : (s.writeFixed host fi (s.flushDue host w) time_ns data (w.now host).2).2.1 =
          s := by
          simp only [writeFixed]
          split
          · split
            · rfl
            · rfl
          · rfl
        rw [hsame]
        exact hnow.mono hgrows.inodes

/-- What a stream can come to: it is opened, written to and closed in any order.  In between, others
may do what they like to the files. -/
inductive Reached (host : Host) : StreamWriter → World → Prop
  | new (folder : Path) (fault_injector : Bool) (w : World) :
      Reached host { folder_ := folder, fault_injector_ := fault_injector } w
  | openFile {s : StreamWriter} {w : World} (h : Reached host s w) (request : LogRequest) :
      Reached host (s.openFile host request w).2.1 (s.openFile host request w).2.2
  | write {s : StreamWriter} {w : World} (h : Reached host s w) (time_ns : UInt64) {data : Bytes}
      (hdata : data.length < 2 ^ 31 - 256) :
      Reached host (s.write host time_ns data w).2.1 (s.write host time_ns data w).2.2
  | closeFile {s : StreamWriter} {w : World} (h : Reached host s w) :
      Reached host (s.closeFile host w).1 (s.closeFile host w).2
  | others {s : StreamWriter} {w w' : World} (h : Reached host s w) (hw : w.inodes ≤ w'.inodes) :
      Reached host s w'

/-- **In every state of a run the open handles are on files that were handed out.** -/
lemma Reached.issued (h : Reached host s w) : Issued w s := by
  induction h with
  | new folder fault_injector w =>
      refine ⟨fun f hf => ?_, fun f hf => ?_⟩
      · cases hf
      · cases hf
  | @openFile s w _ request ih =>
      have hnamed : Issued w (s.named request) := ⟨ih.index, ih.data⟩
      exact reopenFile_issued host hnamed request.time_ns
  | write _ time_ns _ ih => exact write_issued ih time_ns _
  | closeFile _ _ => exact closeFile_issued host _ _
  | others _ hw ih => exact ih.mono hw

/-- **Reported sizes and the estimate.**  In every state of a run, a positive value of `openFile` or
`write` is the number of bytes that the call appended to the files of the stream, and one write of a
folder appends no more than `maxRecordSize` of the payload. -/
theorem reported_within_estimate (host : Host) :
    (∀ s w, Reached host s w →
      (∀ request v s' w', s.openFile host request w = (.ret v, s', w') → 0 < v →
        Reported s' w w' v) ∧
      (∀ time_ns data v s' w', data.length < 2 ^ 31 - 256 →
        s.write host time_ns data w = (.ret v, s', w') → 0 < v → Reported s' w w' v)) ∧
    ∀ (f : Folder) (request : LogRequest) (w : World), request.data.length < 2 ^ 31 - 256 →
      (f.write host request w).2.2.tape.length ≤
        w.tape.length + maxRecordSize request.data.length := by
  refine ⟨fun s w hr => ⟨fun request v s' w' h hv =>
    ?_, fun time_ns data v s' w' hdata h hv => ?_⟩, fun f request w hdata =>
      Folder.folder_write_costs f w hdata⟩
  · obtain ⟨file_name, p, hc⟩ := reopenFile_created h hv
    exact hc.reported
  · exact write_reported hr.issued hdata h hv

/-- A stream with one record of two bytes, and a folder at its first request. -/
theorem reported_within_estimate_sample :
    Reported sampleOpened.2.1 (.bare [ascii "r"]) sampleOpened.2.2 98 ∧
    Reported (sampleOpened.2.1.write .january 1704067200000000000 [1, 2] sampleOpened.2.2).2.1
      sampleOpened.2.2
      (sampleOpened.2.1.write .january 1704067200000000000 [1, 2] sampleOpened.2.2).2.2 26 ∧
    (Folder.write .january { folder_ := [ascii "r"] }
      ⟨ascii "a", 0, [1, 2], 1704067200000000000⟩ (.bare [ascii "r"])).2.2.tape.length ≤
        maxRecordSize 2 := by
  obtain ⟨hstream, hfolder⟩ := reported_within_estimate .january
  have hnew : Reached .january { folder_ := [ascii "r"] } (.bare [ascii "r"]) := .new _ false _
  obtain ⟨hopen, -⟩ := hstream _ _ hnew
  obtain ⟨-, hwrite⟩ := hstream _ _ (hnew.openFile
    { channel := ascii "a", size := 0, data := [], time_ns := 1704067200000000000 })
  refine ⟨hopen _ 98 _ _ (Prod.ext (by decide +kernel) rfl) (by decide), ?_, ?_⟩
  · exact hwrite _ _ 26 _ _ (by decide) (Prod.ext (by decide +kernel) rfl) (by decide)
  · exact hfolder _ ⟨ascii "a", 0, [1, 2], 1704067200000000000⟩ _ (by decide +kernel)

end StreamWriter

end Tracebox
