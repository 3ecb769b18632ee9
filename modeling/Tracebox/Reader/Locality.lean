import Tracebox.Reader.PayloadConfinement
import Tracebox.Stream.ReadBack

/-!
# Damage is local to a record

A `StreamReader` opens its files once.  What a call of `read` leaves behind for the next one is two
stream positions, two fail bits and the text of an error.  Positions are set again before they are
used and errors are cleared, so **only a fail bit can carry over**.

* `Alike` — two readers of one data file that agree in everything but position and error.  They
  give the same records (`DataFileReader.read_alike`).
* `Holding`, `lookUp` — a healthy `StreamReader` between two calls: its index never fails, so
  a call is a look-up in the data file.
* `DataFileReader.read_good` — in a file below `2 ^ 32` bytes every read is in bounds: the three
  subtractions of the checks do not wrap, whatever header, offset and length say.
* `reads_local` — **every call gives what it would give on a new reader**.
-/

namespace Tracebox

open Bytes

/-! ## Input streams -/

namespace IfStream

variable (f : IfStream)

@[simp] lemma bytes_seekg (pos : ℕ) : (f.seekg pos).bytes = f.bytes := by
  unfold seekg
  split <;> rfl

@[simp] lemma good_seekg (pos : ℕ) : (f.seekg pos).good = f.good := by
  unfold seekg
  split <;> rfl

@[simp] lemma bytes_read (n : ℕ) : (f.read n).2.bytes = f.bytes := by
  unfold read
  split_ifs <;> rfl

/-- A fail bit stays. -/
lemma good_of_read {n : ℕ} (h : (f.read n).2.good = true) : f.good = true := by
  unfold read at h
  split_ifs at h with hgood
  · exact hgood
  · exact absurd h hgood

/-- Behind `seekg` the old position is forgotten. -/
lemma seekg_eq {f f' : IfStream} (hbytes : f.bytes = f'.bytes) (hgood : f.good = f'.good)
    (h : f.good = true) (pos : ℕ) : f.seekg pos = f'.seekg pos := by
  have h' : f'.good = true := by rw [← hgood, h]
  rw [seekg, seekg, if_pos h, if_pos h', hbytes, hgood]

end IfStream

/-! ## One data file -/

namespace DataFileReader

/-- Readers of one file that differ at most in position and error. -/
structure Alike (r r' : DataFileReader) : Prop where
  path : r.path_ = r'.path_
  bytes : r.if_.bytes = r'.if_.bytes
  good : r.if_.good = r'.if_.good
  header : r.header_ = r'.header_
  size : r.size_bytes_ = r'.size_bytes_

lemma Alike.refl (r : DataFileReader) : Alike r r := ⟨rfl, rfl, rfl, rfl, rfl⟩

lemma Alike.trans {r r' r'' : DataFileReader} (h : Alike r r') (h' : Alike r' r'') : Alike r r'' :=
  ⟨h.path.trans h'.path, h.bytes.trans h'.bytes, h.good.trans h'.good, h.header.trans h'.header,
    h.size.trans h'.size⟩

/-- A reader and the same after some calls: the fail bit may have been set. -/
structure Worn (r r' : DataFileReader) : Prop where
  path : r.path_ = r'.path_
  bytes : r.if_.bytes = r'.if_.bytes
  header : r.header_ = r'.header_
  size : r.size_bytes_ = r'.size_bytes_
  good : r'.if_.good = true → r.if_.good = true

/-- How a call ends, seen from the reader it was made on: with a record and no error, or with an
error and no record. -/
structure Ends (r : DataFileReader) (d : ℕ × Option DataPiece × DataFileReader) : Prop where
  path : d.2.2.path_ = r.path_
  bytes : d.2.2.if_.bytes = r.if_.bytes
  header : d.2.2.header_ = r.header_
  size : d.2.2.size_bytes_ = r.size_bytes_
  good : d.2.2.if_.good = true → r.if_.good = true
  missing : d.2.1 = none → d.1 = 0 ∧ d.2.2.last_error_ ≠ none
  found : d.2.1 ≠ none → d.2.2.last_error_ = none ∧ d.2.2.if_.good = true

/-- A call that logs an error. -/
lemma ends_of_error {r : DataFileReader} {f : IfStream} (e : ReadError)
    (hbytes : f.bytes = r.if_.bytes) (hgood : f.good = true → r.if_.good = true) :
    Ends r (0, none,
      withError ⟨{ r.toFileReader.clear_error with if_ := f }⟩ e) where
  path := rfl
  bytes := hbytes
  header := rfl
  size := rfl
  good := hgood
  missing _ := ⟨rfl, by simp [withError, FileReader.log_error]⟩
  found h := absurd rfl h

lemma read_ends (r : DataFileReader) (offset : ℕ) : Ends r (r.read offset) := by
  have hgood : (r.if_.seekg offset).good = true → r.if_.good = true := by simp
  have hbytes : (r.if_.seekg offset).bytes = r.if_.bytes := IfStream.bytes_seekg _ _
  have hhead := IfStream.bytes_read (r.if_.seekg offset) sizeofVariableRecordDataHeader
  simp only [read]
  split
  · exact ends_of_error (f := r.if_) _ rfl id
  · split
    · exact ends_of_error (f := r.if_) _ rfl id
    · split
      · exact ends_of_error _ hbytes hgood
      · split
        · exact ends_of_error _ (hhead.trans hbytes) fun h => hgood (IfStream.good_of_read _ h)
        · split
          · exact ends_of_error _ (hhead.trans hbytes) fun h => hgood (IfStream.good_of_read _ h)
          · split
            · exact ends_of_error _ ((IfStream.bytes_read _ _).trans (hhead.trans hbytes)) fun h =>
                hgood (IfStream.good_of_read _ (IfStream.good_of_read _ h))
            · rename_i hread
              refine ⟨rfl, (IfStream.bytes_read _ _).trans (hhead.trans hbytes), rfl, rfl,
                fun h => ?_, fun h => absurd h (Option.some_ne_none _),
                fun _ => ⟨rfl, not_not.mp hread⟩⟩
              exact hgood (IfStream.good_of_read _ (IfStream.good_of_read _ h))

/-- **Alike readers give the same record** and stay alike. -/
lemma read_alike {r r' : DataFileReader} (h : Alike r r') (offset : ℕ) :
    (r.read offset).2.1 = (r'.read offset).2.1 ∧
      Alike (r.read offset).2.2 (r'.read offset).2.2 := by
  obtain ⟨⟨path, f, header, size, err, overrun⟩⟩ := r
  obtain ⟨⟨path', f', header', size', err', overrun'⟩⟩ := r'
  obtain ⟨hpath, hbytes, hgood, hheader, hsize⟩ := h
  dsimp only at hpath hbytes hgood hheader hsize
  subst hpath hheader hsize
  cases header with
  | none => exact ⟨rfl, rfl, hbytes, hgood, rfl, rfl⟩
  | some h =>
      by_cases hbounds : size < h.header_size_.toNat ∨ offset < h.header_size_.toNat ∨
          toSize (size - sizeofVariableRecordDataHeader) < offset ∨ h.file_type_ ≠ kDataFile
      · simp only [read, FileReader.clear_error, hbounds, if_true]
        exact ⟨trivial, rfl, hbytes, hgood, rfl, rfl⟩
      · by_cases hf : f.good = true
        · -- both streams are at the offset, so what follows is the same
          have hseek := IfStream.seekg_eq hbytes hgood hf offset
          have hs : (f'.seekg offset).good = true := by simpa [← hgood] using hf
          generalize hseek' : f'.seekg offset = t at hseek hs
          by_cases hhead : (t.read sizeofVariableRecordDataHeader).2.good = true
          · by_cases hlong : toSize (size - offset - sizeofVariableRecordDataHeader) <
                ofLE (slice (t.read sizeofVariableRecordDataHeader).1 8 4)
            · simp only [read, FileReader.clear_error, hbounds, hseek, hseek', hs, hhead, hlong,
                if_true, if_false, not_true_eq_false]
              exact ⟨trivial, rfl, rfl, rfl, rfl, rfl⟩
            · by_cases hbody : ((t.read sizeofVariableRecordDataHeader).2.read
                  (ofLE (slice (t.read sizeofVariableRecordDataHeader).1 8 4))).2.good = true
              · simp only [read, FileReader.clear_error, hbounds, hseek, hseek', hs, hhead, hlong,
                  hbody, if_false, not_true_eq_false]
                exact ⟨trivial, rfl, rfl, rfl, rfl, rfl⟩
              · simp only [read, FileReader.clear_error, hbounds, hseek, hseek', hs, hhead, hlong,
                  hbody, if_true, if_false, Bool.false_eq_true, not_true_eq_false,
                  not_false_eq_true]
                exact ⟨trivial, rfl, rfl, rfl, rfl, rfl⟩
          · simp only [read, FileReader.clear_error, hbounds, hseek, hseek', hs, hhead, if_true,
              if_false, Bool.false_eq_true, not_true_eq_false, not_false_eq_true]
            exact ⟨trivial, rfl, rfl, rfl, rfl, rfl⟩
        · have hf' : ¬ f'.good = true := by rwa [← hgood]
          have hseek : ¬ (f.seekg offset).good = true := by simpa using hf
          have hseek' : ¬ (f'.seekg offset).good = true := by simpa using hf'
          simp only [read, FileReader.clear_error, hbounds, hseek, hseek', if_true, if_false,
            Bool.false_eq_true, not_false_eq_true]
          refine ⟨trivial, rfl, ?_, ?_, rfl, rfl⟩
          · simpa [withError, FileReader.log_error] using hbytes
          · simpa [withError, FileReader.log_error] using hgood

/-- With a fail bit there are no records. -/
lemma good_of_found {r : DataFileReader} {offset : ℕ} (h : (r.read offset).2.1 ≠ none) :
    r.if_.good = true ∧ Alike r (r.read offset).2.2 := by
  have hends := read_ends r offset
  have hafter := (hends.found h).2
  have hbefore := hends.good hafter
  exact ⟨hbefore, hends.path.symm, hends.bytes.symm, hbefore.trans hafter.symm, hends.header.symm,
    hends.size.symm⟩

/-- The whole file is behind the number of its bytes, and there is room for a record header. -/
structure Sized (r : DataFileReader) : Prop where
  length : r.if_.bytes.length = r.size_bytes_
  small : r.size_bytes_ < 2 ^ 32
  header : sizeofVariableRecordDataHeader ≤ r.size_bytes_

/-- **Every read is in bounds.**  An offset that passes the first check leaves room for a record
header, and a length that passes the second one ends inside the file. -/
lemma good_read {r : DataFileReader} (h : r.header_ ≠ none → Sized r)
    (hgood : r.if_.good = true) (offset : ℕ) : (r.read offset).2.2.if_.good = true := by
  obtain ⟨⟨path, ⟨bytes, pos, good⟩, header, size, err, overrun⟩⟩ := r
  dsimp only at hgood h
  subst hgood
  cases header with
  | none => rfl
  | some hdr =>
      obtain ⟨hlength, hsmall, hheader⟩ := h (by simp)
      dsimp only at hlength hsmall hheader
      have hlast := toSize_sub hheader (by omega)
      simp only [read, FileReader.clear_error, IfStream.seekg_good, hlast]
      split
      · rfl
      · rename_i hbounds
        have hroom : offset + sizeofVariableRecordDataHeader ≤ bytes.length := by omega
        have hrest : toSize ((size : ℤ) - offset - sizeofVariableRecordDataHeader) =
            size - offset - sizeofVariableRecordDataHeader := by
          rw [sub_sub, ← Nat.cast_add, toSize_sub (by omega) (by omega), Nat.sub_sub]
        simp only [IfStream.read_within hroom, hrest, not_true_eq_false, if_false]
        split
        · rfl
        · rename_i hlong
          rw [IfStream.read_within (by omega)]
          rfl

/-- In such a file nothing carries over. -/
lemma alike_read {r : DataFileReader} (h : r.header_ ≠ none → Sized r) (offset : ℕ) :
    Alike r (r.read offset).2.2 := by
  have hends := read_ends r offset
  refine ⟨hends.path.symm, hends.bytes.symm, ?_, hends.header.symm, hends.size.symm⟩
  cases hgood : r.if_.good with
  | true => exact (good_read h hgood offset).symm
  | false =>
      cases hafter : (r.read offset).2.2.if_.good with
      | false => rfl
      | true => rw [← hgood, hends.good hafter]

/-- The constructor on a file below `2 ^ 32` bytes. -/
lemma make_sized {v : View} {p : Path}
    (hsmall : ∀ content, v.look p = some (.file content) → content.length < 2 ^ 32)
    (h : (make v p).header_ ≠ none) : Sized (make v p) := by
  obtain ⟨hdr, hh⟩ := Option.ne_none_iff_exists'.mp h
  cases hlook : v.look p with
  | none => simp [make, FileReader.make, FileReader.contentOf, hlook] at hh
  | some seen =>
      cases seen with
      | dir => simp [make, FileReader.make, FileReader.contentOf, hlook] at hh
      | file content =>
          obtain ⟨⟨hlen, -⟩, -, hmake⟩ := FileReader.make_of_some hlook hh
          have hlt := hsmall content hlook
          have hmod : content.length % 2 ^ 32 = content.length := Nat.mod_eq_of_lt hlt
          simp only [slice, List.length_take, List.length_drop, sizeofLogFileHeader] at hlen
          refine ⟨?_, ?_, ?_⟩
          · simp only [make, hmake, hmod]
          · simpa only [make, hmake, hmod] using hlt
          · simp only [make, hmake, hmod, sizeofVariableRecordDataHeader]
            omega

end DataFileReader

/-! ## One stream -/

namespace StreamReader

variable {h : LogFileHeader} {I : Bytes} {r r' : StreamReader} {data data' : Option DataFileReader}

/-- A healthy reader between two calls: an index with the header `h` and the bytes `I`, and for
records of variable size a data file. -/
def Holding (h : LogFileHeader) (I : Bytes) (data : Option DataFileReader) (r : StreamReader) :
    Prop :=
  ∃ index : IndexFileReader, r = ⟨some index, data, .kHealthy⟩ ∧ index.Opens h I

/-- What one call of `read` amounts to. -/
def lookUp (h : LogFileHeader) (I : Bytes) (data : Option DataFileReader) (i : ℕ) :
    Option DataPiece × Option DataFileReader :=
  if h.entryCount I ≤ i ∨ h.file_type_ ≠ kIndexFile ∨ h.entryTime I i = 0 then (none, data)
  else if h.record_size_ ≠ 0 then
    (some { time_ns := h.entryTime I i, data := h.entryPayload I i }, data)
  else match data with
    | none => (none, none)
    | some D =>
        if h.entryOffset I i = 0 then (none, some D)
        else ((D.read (h.entryOffset I i)).2.1, some (D.read (h.entryOffset I i)).2.2)

/-- The text a response gets from a data file. -/
def dataText (data : Option DataFileReader) : Bytes := (data.map dataError).getD []

lemma last_error_holding {index : IndexFileReader} (herror : index.last_error_ = none) :
    (⟨some index, data, .kHealthy⟩ : StreamReader).last_error = dataText data := by
  cases data with
  | none => simp [last_error, dataText, herror]
  | some D => rw [last_error_eq herror, dataText, Option.map_some, Option.getD_some]

/-- **A call of `read`.**  For an entry that is there, the error it leaves is that of the data
file. -/
lemma read_holding (hr : Holding h I data r) (i : ℕ) :
    (r.read i).1 = (lookUp h I data i).1 ∧ Holding h I (lookUp h I data i).2 (r.read i).2 ∧
      (i < h.entryCount I → h.file_type_ = kIndexFile →
        (r.read i).2.last_error = dataText (lookUp h I data i).2) := by
  obtain ⟨index, rfl, hopens⟩ := hr
  by_cases hi : h.entryCount I ≤ i ∨ h.file_type_ ≠ kIndexFile
  · obtain ⟨htime, hopens', -⟩ := IndexFileReader.timeOf_error hopens hi
    have hread : read ⟨some index, data, .kHealthy⟩ i =
        (none, ⟨some (index.timeOf i).2, data, .kHealthy⟩) := by
      simp [read, htime]
    have hlook : lookUp h I data i = (none, data) := by
      have hout : h.entryCount I ≤ i ∨ h.file_type_ ≠ kIndexFile ∨ h.entryTime I i = 0 :=
        hi.imp_right Or.inl
      simp only [lookUp, hout, if_true]
    rw [hread, hlook]
    refine ⟨rfl, ⟨_, rfl, hopens'⟩, fun hlt htype => ?_⟩
    exact absurd hi (by simp [htype, hlt])
  · obtain ⟨hlt, htype⟩ := not_or.mp hi
    rw [not_le] at hlt
    rw [not_not] at htype
    obtain ⟨htime, hgoes⟩ := IndexFileReader.timeOf_lt hopens htype hlt
    have hge : ¬ h.entryCount I ≤ i := not_le.mpr hlt
    by_cases ht : h.entryTime I i = 0
    · have hread : read ⟨some index, data, .kHealthy⟩ i =
          (none, ⟨some (index.timeOf i).2, data, .kHealthy⟩) := by
        simp [read, htime, ht]
      have hlook : lookUp h I data i = (none, data) := by
        simp only [lookUp, ht, or_true, if_true]
      rw [hread, hlook]
      exact ⟨rfl, ⟨_, rfl, hgoes.opens⟩, fun _ _ => last_error_holding hgoes.no_error⟩
    · by_cases h0 : h.record_size_ = 0
      · have hfixed : (index.timeOf i).2.fixedSize = false := by simp [hgoes.opens.fixedSize, h0]
        obtain ⟨hoffset, hgoes'⟩ := IndexFileReader.readOffset_lt hgoes.opens h0 hlt
        cases data with
        | none =>
            have hread : read ⟨some index, none, .kHealthy⟩ i =
                (none, ⟨some ((index.timeOf i).2.readOffset i).2, none, .kHealthy⟩) := by
              simp [read, htime, ht, hfixed, readVariable]
            have hlook : lookUp h I none i = (none, none) := by
              simp [lookUp, hge, htype, ht, h0]
            rw [hread, hlook]
            exact ⟨rfl, ⟨_, rfl, hgoes'.opens⟩, fun _ _ =>
              last_error_holding hgoes'.no_error⟩
        | some D =>
            by_cases ho : h.entryOffset I i = 0
            · have hread : read ⟨some index, some D, .kHealthy⟩ i =
                  (none, ⟨some ((index.timeOf i).2.readOffset i).2, some D, .kHealthy⟩) := by
                simp [read, htime, ht, hfixed, readVariable, hoffset, ho]
              have hlook : lookUp h I (some D) i = (none, some D) := by
                simp [lookUp, hge, htype, ht, h0, ho]
              rw [hread, hlook]
              exact ⟨rfl, ⟨_, rfl, hgoes'.opens⟩, fun _ _ =>
                last_error_holding hgoes'.no_error⟩
            · have hlook : lookUp h I (some D) i = ((D.read (h.entryOffset I i)).2.1,
                  some (D.read (h.entryOffset I i)).2.2) := by
                simp [lookUp, hge, htype, ht, h0, ho]
              have hends := DataFileReader.read_ends D (h.entryOffset I i)
              have hread : read ⟨some index, some D, .kHealthy⟩ i =
                  ((D.read (h.entryOffset I i)).2.1,
                    ⟨some ((index.timeOf i).2.readOffset i).2,
                      some (D.read (h.entryOffset I i)).2.2, .kHealthy⟩) := by
                cases hpiece : (D.read (h.entryOffset I i)).2.1 with
                | none =>
                    obtain ⟨hsize, herror⟩ := hends.missing hpiece
                    simp [read, htime, ht, hfixed, readVariable, hoffset, ho, hsize, herror]
                | some piece =>
                    obtain ⟨herror, -⟩ := hends.found (by simp [hpiece])
                    simp [read, htime, ht, hfixed, readVariable, hoffset, ho, herror, hpiece]
              rw [hread, hlook]
              exact ⟨rfl, ⟨_, rfl, hgoes'.opens⟩, fun _ _ =>
                last_error_holding hgoes'.no_error⟩
      · have hfixed : (index.timeOf i).2.fixedSize = true := by simp [hgoes.opens.fixedSize, h0]
        obtain ⟨hpayload, hgoes'⟩ := IndexFileReader.readPayload_lt hgoes.opens h0 hlt
        have hread : read ⟨some index, data, .kHealthy⟩ i =
            (some { time_ns := h.entryTime I i, data := h.entryPayload I i },
              ⟨some ((index.timeOf i).2.readPayload i).2, data, .kHealthy⟩) := by
          simp [read, htime, ht, hfixed, readFixed, hpayload]
        have hlook : lookUp h I data i =
            (some { time_ns := h.entryTime I i, data := h.entryPayload I i }, data) := by
          simp [lookUp, hge, htype, ht, h0]
        rw [hread, hlook]
        exact ⟨rfl, ⟨_, rfl, hgoes'.opens⟩, fun _ _ => last_error_holding hgoes'.no_error⟩

/-- **What the constructor makes of two files.**  A reader that is not healthy never reads. -/
lemma make_holding {v : View} {p : Path} (hhealthy : (make v p).status_ = .kHealthy) :
    ∃ h I data, v.look p = some (.file I) ∧ (FileReader.make v p).header_ = some h ∧
      Holding h I data (make v p) ∧ 0 < h.entryCount I ∧
        (data = none ↔ h.record_size_ ≠ 0) ∧
      (∀ D, data = some D → ∃ ext_pos, find dotIdx p.string = some ext_pos ∧
        D = DataFileReader.make v (dataPath p ext_pos)) := by
  by_cases hregular : is_regular_file v p = true
  · obtain ⟨I, hlook⟩ : ∃ I, v.look p = some (.file I) := by
      unfold is_regular_file at hregular
      split at hregular
      · rename_i I hlook
        exact ⟨I, hlook⟩
      · cases hregular
    cases hfind : find dotIdx p.string with
    | none => simp [make, hregular, hfind] at hhealthy
    | some ext_pos =>
        by_cases hcount : (IndexFileReader.make v p).records_cnt_ = 0
        · simp [make, hregular, hfind, hcount] at hhealthy
        · -- with entries there is a header, and it fits into the file
          obtain ⟨h, hh⟩ : ∃ h, (FileReader.make v p).header_ = some h := by
            refine Option.ne_none_iff_exists'.mp fun hnone => hcount ?_
            simp only [IndexFileReader.make, hnone]
          have hsize : h.header_size_.toNat ≤ I.length % 2 ^ 32 := by
            obtain ⟨-, -, hmake⟩ := FileReader.make_of_some hlook hh
            by_contra hlarge
            refine hcount ?_
            rw [IndexFileReader.make_of_large hh (by rw [hmake]; exact not_le.mp hlarge)]
          obtain ⟨hopens, -⟩ := IndexFileReader.make_opens hlook hh hsize
          have hpos : 0 < h.entryCount I := by
            rw [← hopens.count]
            exact Nat.pos_of_ne_zero hcount
          cases hfixed : (IndexFileReader.make v p).fixedSize with
          | true =>
              refine ⟨h, I, none, hlook, hh, ⟨IndexFileReader.make v p, ?_, hopens⟩, hpos,
                iff_of_true rfl ?_, ?_⟩
              · simp [make, hregular, hfind, hcount, hfixed]
              · simpa [hopens.fixedSize] using hfixed
              · exact fun D hD => absurd hD (by simp)
          | false =>
              have hpair := make_eq_pair hregular hfind hcount hfixed
              refine ⟨h, I, some (DataFileReader.make v (dataPath p ext_pos)), hlook, hh,
                ⟨IndexFileReader.make v p, ?_, hopens⟩, hpos,
                iff_of_false (Option.some_ne_none _) ?_, ?_⟩
              · rw [hpair] at hhealthy ⊢
                exact congrArg (StreamReader.mk _ _) hhealthy
              · simpa [hopens.fixedSize] using hfixed
              · exact fun D hD => ⟨ext_pos, rfl, (Option.some.inj hD).symm⟩
  · simp [make, hregular] at hhealthy

/-- Data files that agree in everything but position and error. -/
def AlikeData (data data' : Option DataFileReader) :
    Prop := Option.Rel DataFileReader.Alike data data'

lemma AlikeData.refl (data : Option DataFileReader) : AlikeData data data := by
  cases data with
  | none => exact .none
  | some D => exact .some (.refl D)

lemma AlikeData.trans {data'' : Option DataFileReader} (h : AlikeData data data')
    (h' : AlikeData data' data'') : AlikeData data data'' := by
  cases h with
  | none => exact h'
  | some h =>
      cases h' with
      | some h' => exact .some (h.trans h')

/-- **A look-up depends on the data file up to position and error.** -/
lemma lookUp_alike (h : LogFileHeader) (I : Bytes) (hdata : AlikeData data data') (i : ℕ) :
    (lookUp h I data i).1 = (lookUp h I data' i).1 ∧
      AlikeData (lookUp h I data i).2 (lookUp h I data' i).2 := by
  unfold lookUp
  split
  · exact ⟨rfl, hdata⟩
  · split
    · exact ⟨rfl, hdata⟩
    · cases hdata with
      | none => exact ⟨rfl, .none⟩
      | @some D D' hD =>
          dsimp only
          split
          · exact ⟨rfl, .some hD⟩
          · obtain ⟨hpiece, halike⟩ := DataFileReader.read_alike hD (h.entryOffset I i)
            exact ⟨hpiece, .some halike⟩

/-- A look-up that keeps every data file keeps this one. -/
lemma lookUp_keeps (h : LogFileHeader) (I : Bytes) (i : ℕ)
    (hkeeps : ∀ D, data = some D → DataFileReader.Alike D (D.read (h.entryOffset I i)).2.2) :
    AlikeData data (lookUp h I data i).2 := by
  unfold lookUp
  split
  · exact .refl _
  · split
    · exact .refl _
    · split
      · exact .none
      · split
        · exact .refl _
        · exact .some (hkeeps _ rfl)

/-- Readers between two calls that have the same files and fail bits. -/
def Like (r r' : StreamReader) : Prop :=
  ∃ h I data data', Holding h I data r ∧ Holding h I data' r' ∧ AlikeData data data'

/-- **Like readers give the same record** and stay alike. -/
lemma read_like (hr : Like r r') (i : ℕ) :
    (r.read i).1 = (r'.read i).1 ∧ Like (r.read i).2 (r'.read i).2 := by
  obtain ⟨h, I, data, data', hold, hold', halike⟩ := hr
  obtain ⟨hpiece, hnext, -⟩ := read_holding hold i
  obtain ⟨hpiece', hnext', -⟩ := read_holding hold' i
  obtain ⟨hsame, halike'⟩ := lookUp_alike h I halike i
  exact ⟨by rw [hpiece, hpiece', hsame], h, I, _, _, hnext, hnext', halike'⟩

lemma reads_like (is : List ℕ) (hr : Like r r') :
    (r.reads is).1 = (r'.reads is).1 ∧ Like (r.reads is).2 (r'.reads is).2 := by
  induction is generalizing r r' with
  | nil => exact ⟨rfl, hr⟩
  | cons i is ih =>
      obtain ⟨hpiece, hnext⟩ := read_like hr i
      obtain ⟨hrest, hlast⟩ := ih hnext
      exact ⟨by rw [reads, reads, hpiece, hrest], hlast⟩

/-- A data file after some calls: a fail bit may have been set. -/
def WornData (data data' : Option DataFileReader) :
    Prop := Option.Rel DataFileReader.Worn data data'

lemma WornData.refl (data : Option DataFileReader) : WornData data data := by
  cases data with
  | none => exact .none
  | some D => exact .some ⟨rfl, rfl, rfl, rfl, id⟩

lemma WornData.trans {data'' : Option DataFileReader} (h : WornData data data')
    (h' : WornData data' data'') : WornData data data'' := by
  cases h with
  | none => exact h'
  | some h =>
      cases h' with
      | some h' =>
          exact .some ⟨h.path.trans h'.path, h.bytes.trans h'.bytes, h.header.trans h'.header,
            h.size.trans h'.size, fun hgood => h.good (h'.good hgood)⟩

/-- Between two states that are alike nothing was set. -/
lemma WornData.alike {data'' : Option DataFileReader} (h : WornData data data')
    (h' : WornData data' data'') (halike : AlikeData data data'') : AlikeData data data' := by
  cases h with
  | none => exact .none
  | @some D D' h =>
      cases h' with
      | @some _ D'' h' =>
          cases halike with
          | some halike =>
              refine .some ⟨h.path, h.bytes, ?_, h.header, h.size⟩
              refine Bool.eq_iff_iff.mpr ⟨fun hgood => h'.good ?_, h.good⟩
              rwa [← halike.good]

lemma lookUp_worn (h : LogFileHeader) (I : Bytes) (data : Option DataFileReader) (i : ℕ) :
    WornData data (lookUp h I data i).2 := by
  unfold lookUp
  split
  · exact .refl _
  · split
    · exact .refl _
    · split
      · exact .none
      · rename_i D
        split
        · exact .refl _
        · have hends := DataFileReader.read_ends D (h.entryOffset I i)
          exact .some ⟨hends.path.symm, hends.bytes.symm, hends.header.symm, hends.size.symm,
            hends.good⟩

lemma reads_worn (hr : Holding h I data r) (is : List ℕ) :
    ∃ data', Holding h I data' (r.reads is).2 ∧ WornData data data' := by
  induction is generalizing r data with
  | nil => exact ⟨data, hr, .refl data⟩
  | cons i is ih =>
      obtain ⟨data', hr', hworn⟩ := ih (read_holding hr i).2.1
      exact ⟨data', hr', (lookUp_worn h I data i).trans hworn⟩

/-- **With a fail bit no record is found**, so up to a record that is found there was none. -/
lemma lookUp_found {i : ℕ} (halone : h.record_size_ ≠ 0 → data = none)
    (hworn : WornData data data') (hfound : (lookUp h I data' i).1 ≠ none) :
    AlikeData data (lookUp h I data' i).2 := by
  cases hworn with
  | none =>
      unfold lookUp
      split
      · exact .none
      · split
        · exact .none
        · exact .none
  | @some D D' hworn =>
      have h0 : h.record_size_ = 0 := by
        by_contra h0
        exact absurd (halone h0) (Option.some_ne_none D)
      unfold lookUp at hfound ⊢
      split at hfound
      · exact absurd rfl hfound
      · rename_i hentry
        rw [if_neg hentry, if_neg (not_not.mpr h0)]
        rw [if_neg (not_not.mpr h0)] at hfound
        dsimp only at hfound ⊢
        split at hfound
        · exact absurd rfl hfound
        · rename_i hoffset
          rw [if_neg hoffset]
          obtain ⟨hgood, halike⟩ := DataFileReader.good_of_found hfound
          refine .some (DataFileReader.Alike.trans ⟨hworn.path, hworn.bytes, ?_, hworn.header,
            hworn.size⟩ halike)
          rw [hgood, hworn.good hgood]

lemma reads_append (r : StreamReader) (is js : List ℕ) :
    r.reads (is ++ js) =
      ((r.reads is).1 ++ ((r.reads is).2.reads js).1, ((r.reads is).2.reads js).2) := by
  induction is generalizing r with
  | nil => rfl
  | cons i is ih => simp only [List.cons_append, reads, ih]

lemma length_reads (r : StreamReader) (is : List ℕ) : (r.reads is).1.length = is.length := by
  induction is generalizing r with
  | nil => rfl
  | cons i is ih => simp only [reads, List.length_cons, ih]

/-- **A record that is found vouches for the calls before it**: up to then the reader is like one
on which no call was made. -/
lemma like_reads (hr : Holding h I data r) (halone : h.record_size_ ≠ 0 → data = none)
    {is js : List ℕ} {i : ℕ} (hfound : ((r.reads is).2.read i).1 ≠ none)
    (hjs : js <+: is ++ [i]) : Like r (r.reads js).2 := by
  obtain ⟨ks, hks⟩ := hjs
  obtain ⟨data₁, hold₁, hworn₁⟩ := reads_worn hr js
  obtain ⟨data₂, hold₂, hworn₂⟩ := reads_worn hold₁ ks
  obtain ⟨data₃, hold₃, hworn₃⟩ := reads_worn hr is
  obtain ⟨hpiece, hnext, -⟩ := read_holding hold₃ i
  rw [hpiece] at hfound
  have halike := lookUp_found halone hworn₃ hfound
  -- both ways of making the calls end in one state
  have hend : ((r.reads js).2.reads ks).2 = ((r.reads is).2.read i).2 := by
    have hleft := congrArg Prod.snd (r.reads_append js ks)
    have hright := congrArg Prod.snd (r.reads_append is [i])
    rw [hks] at hleft
    exact hleft.symm.trans hright
  have hdata : data₂ = (lookUp h I data₃ i).2 := by
    obtain ⟨index, heq, -⟩ := hold₂
    obtain ⟨index', heq', -⟩ := hnext
    rw [hend, heq'] at heq
    exact (congrArg StreamReader.data_ heq).symm
  rw [hdata] at hworn₂
  exact ⟨h, I, data, data₁, hr, hold₁, hworn₁.alike hworn₂ halike⟩

/-- A reader that is not healthy reads nothing and stays as it is. -/
lemma read_of_not_healthy (hr : r.status_ ≠ .kHealthy) (i : ℕ) : r.read i = (none, r) := by
  unfold read
  split
  · rfl
  · rw [if_pos hr]

lemma reads_of_fixed_point {x : Option DataPiece} (hr : ∀ i, r.read i = (x, r)) (is : List ℕ) :
    r.reads is = (is.map fun _ => x, r) := by
  induction is with
  | nil => rfl
  | cons i is ih => rw [reads, hr, ih, List.map_cons]

/-- **Damage is local to a record.**  Calls on one reader, whatever the files hold and in whatever
order the records are asked for, give what each of them gives on a new reader.  The data file is
below `2 ^ 32` bytes. -/
theorem reads_local (v : View) (p : Path)
    (hsmall : ∀ ext_pos content, find dotIdx p.string = some ext_pos →
      v.look (dataPath p ext_pos) = some (.file content) → content.length < 2 ^ 32)
    (is : List ℕ) : ((make v p).reads is).1 = is.map fun i => ((make v p).read i).1 := by
  by_cases hhealthy : (make v p).status_ = .kHealthy
  · obtain ⟨h, I, data, -, -, hold, -, -, hdata⟩ := make_holding hhealthy
    -- no call changes a fail bit
    have hkeeps : ∀ r data', Holding h I data' r → AlikeData data data' → ∀ i,
        ∃ data'', Holding h I data'' (r.read i).2 ∧ AlikeData data data'' := by
      intro r data' hr halike i
      refine ⟨_, (read_holding hr i).2.1, ?_⟩
      have hstart : AlikeData data (lookUp h I data i).2 := by
        refine lookUp_keeps h I i fun D hD => ?_
        obtain ⟨ext_pos, hfind, rfl⟩ := hdata D hD
        exact DataFileReader.alike_read (DataFileReader.make_sized fun content hlook =>
          hsmall ext_pos content hfind hlook) _
      exact hstart.trans (lookUp_alike h I halike i).2
    have hrun : ∀ (is : List ℕ) (r : StreamReader) (data' : Option DataFileReader),
        Holding h I data' r → AlikeData data data' →
        (r.reads is).1 = is.map fun i => ((make v p).read i).1 := by
      intro is
      induction is with
      | nil => exact fun _ _ _ _ => rfl
      | cons i is ih =>
          intro r data' hr halike
          obtain ⟨data'', hr', halike'⟩ := hkeeps r data' hr halike i
          have hsame : (r.read i).1 = ((make v p).read i).1 :=
            (read_like ⟨h, I, data, data', hold, hr, halike⟩ i).1.symm
          rw [reads, List.map_cons, ← hsame, ih _ _ hr' halike']
    exact hrun is _ data hold (.refl data)
  · rw [reads_of_fixed_point (read_of_not_healthy hhealthy)]
    simp only [read_of_not_healthy hhealthy]

/-- The two files of a stream of which the first entry points behind the end of the data file. -/
def damagedView : View where
  look p :=
    if p = [ascii "a.idx"] then
      some (.file
        ((StreamWriter.header { folder_ := [], name_ := ascii "a" } 7 kIndexFile).encode ++
          (toLE 8 7 ++ (toLE 4 9999 ++ (toLE 8 8 ++ toLE 4 sizeofLogFileHeader)))))
    else if p = [ascii "a.data"] then
      some (.file ((StreamWriter.header { folder_ := [], name_ := ascii "a" } 7 kDataFile).encode ++
        (toLE 8 8 ++ (toLE 4 2 ++ ascii "ok"))))
    else none
  children _ := []
  weakly_canonical p := some p
  overrun _ := []

/-- The second record is read as if the first one had not been tried. -/
theorem reads_local_damaged :
    ((make damagedView [ascii "a.idx"]).reads [0, 1, 5, 0, 1]).1 =
      [none, some ⟨8, ascii "ok", 0⟩, none, none, some ⟨8, ascii "ok", 0⟩] := by
  refine (reads_local damagedView [ascii "a.idx"] ?_ [0, 1, 5, 0, 1]).trans (by decide +kernel)
  rintro ext_pos content hfind hlook
  have hpos : find dotIdx (Path.string [ascii "a.idx"]) = some 2 := by decide +kernel
  obtain rfl : 2 = ext_pos := Option.some.inj (hpos.symm.trans hfind)
  have hdata : damagedView.look (dataPath [ascii "a.idx"] 2) =
      some (.file ((StreamWriter.header { folder_ := [], name_ := ascii "a" } 7 kDataFile).encode ++
        (toLE 8 8 ++ (toLE 4 2 ++ ascii "ok")))) := by decide +kernel
  obtain ⟨rfl⟩ : _ = content := Seen.file.inj (Option.some.inj (hdata.symm.trans hlook))
  decide +kernel

end StreamReader

end Tracebox
