import Tracebox.Storage.Availability

/-!
# What a write is charged with

The headers of a stream that a folder opens are on disk and are never charged.  Together with what a
call is charged, the headers of the open files stay within what was appended.

* `StreamWriter.headers`, `Folder.headers` — the headers of the open files.
* `StreamWriter.write_headers`, `StreamWriter.openFile_headers` — a write opens no more files than
  it finds open, and a stream that is opened has appended its headers.
* `Folder.writeChannel_charged` — **what a write is charged and the headers of the files it opens
  were appended**.
* `backend_write_charged` — the same with the bytes on disk, and as long as the directory of the
  active folder is there.
-/

namespace Tracebox

open Bytes FilesystemStorageBackend

/-- What the budget is charged for a call. -/
def Outcome.charged : Outcome → ℕ
  | .ret v => v.toNat
  | _ => 0

/-! ## The headers of the open files -/

/-- The header of a file that is open. -/
def headerOf (h : Option FileIo) : ℕ := if (StreamWriter.live h).isSome
    then sizeofLogFileHeader else 0

lemma headerOf_le (h : Option FileIo) : headerOf h ≤ sizeofLogFileHeader := by
  unfold headerOf
  split_ifs <;> simp

lemma headerOf_of_live {h : Option FileIo} {f : FileIo} (hf : StreamWriter.live h = some f) :
    headerOf h = sizeofLogFileHeader := by
  simp [headerOf, hf]

lemma headerOf_of_closed {h : Option FileIo} (hf : StreamWriter.live h = none) :
    headerOf h = 0 := by
  simp [headerOf, hf]

namespace StreamWriter

variable {host : Host} {w : World} {s : StreamWriter}

/-- The headers of the files that a stream has open. -/
def headers (s : StreamWriter) : ℕ := headerOf s.index_ + headerOf s.data_

lemma headers_le (s : StreamWriter) : s.headers ≤ 2 * sizeofLogFileHeader := by
  have hi := headerOf_le s.index_
  have hd := headerOf_le s.data_
  rw [headers]
  omega

lemma headers_of_closed (hi : live s.index_ = none) : s.headers ≤ sizeofLogFileHeader := by
  rw [headers, headerOf_of_closed hi, Nat.zero_add]
  exact headerOf_le _

/-- A record leaves the handles as they are. -/
lemma commitRecord_headers (host : Host) (s : StreamWriter) (flush : Bool) (time_ns : UInt64)
    (data : Bytes) (result : ℤ) (w : World) :
    (s.commitRecord host flush time_ns data result w).2.1.headers = s.headers := by
  simp only [commitRecord]
  split
  · rfl
  · split
    · rfl
    · split <;> rfl

lemma writeFixed_headers (host : Host) (s : StreamWriter) (f : FileIo) (flush : Bool)
    (time_ns : UInt64) (data : Bytes) (w : World) :
    (s.writeFixed host f flush time_ns data w).2.1.headers = s.headers := by
  simp only [writeFixed]
  split_ifs <;> rfl

/-- **A write opens no more files than it finds open.** -/
lemma write_headers (host : Host) (s : StreamWriter) (time_ns : UInt64) (data : Bytes) (w : World) :
    (s.write host time_ns data w).2.1.headers ≤ s.headers := by
  simp only [write]
  cases hi : live s.index_ with
  | none => exact le_rfl
  | some fi =>
      simp only
      split_ifs
      · exact (writeFixed_headers host s fi _ time_ns data _).le
      · simp only [writeVariable]
        cases hd : live s.data_ with
        | none => exact le_rfl
        | some fd =>
            -- both files are open, so a new pair has no more headers
            have hboth : s.headers = 2 * sizeofLogFileHeader := by
              rw [headers, headerOf_of_live hi, headerOf_of_live hd, Nat.two_mul]
            simp only
            split_ifs
            · rw [hboth]
              split
              · split_ifs
                · exact headers_le _
                · rw [commitRecord_headers]
                  exact headers_le _
              · exact headers_le _
            · exact (commitRecord_headers host s _ time_ns data 0 _).le

/-- What `writeHeader` returns is what it has appended, or an error. -/
lemma writeHeader_appends (host : Host) (s : StreamWriter) {f : FileIo}
    (hf : f.is_open = true → f.inode < w.inodes) (time_ns : UInt64) (type : UInt8) :
    w.tape.length ≤ (s.writeHeader host f time_ns type w).2.tape.length ∧
      (0 ≤ (s.writeHeader host f time_ns type w).1 → w.tape.length + sizeofLogFileHeader ≤
        (s.writeHeader host f time_ns type w).2.tape.length) := by
  obtain ⟨-, -, htape⟩ := s.writeHeader_reports host hf time_ns type
  refine ⟨le_trans (Nat.le_add_right _ _) htape, fun hv => ?_⟩
  have hopen : f.is_open = true := by
    by_contra hopen
    have hneg : ¬ (0 : ℤ) ≤ -EINVAL := by decide
    rw [writeHeader, if_neg hopen] at hv
    exact hneg hv
  rwa [(writeHeader_pos (hf hopen) hv).1, Int.toNat_natCast] at htape

/-- The data file. -/
lemma reopenData_headers (host : Host) (s : StreamWriter) (file_name : Bytes) (index : FileIo)
    (time_ns : UInt64) (result : ℤ) (w : World) :
    w.tape.length + (s.reopenData host file_name index time_ns result w).2.1.headers ≤
      (s.reopenData host file_name index time_ns result w).2.2.tape.length +
        sizeofLogFileHeader := by
  have hopen : w.Grows (FileIo.open_ host s.folder_ (file_name ++ dotData) w).2 :=
    (FileIo.reaches_open (D := fun _ => True) _ _ w).grows
  have hissued : (FileIo.open_ host s.folder_ (file_name ++ dotData) w).1.is_open = true → _ :=
    open_issued
  have hnegative : ¬ (0 : ℤ) ≤ -EINVAL := by decide
  simp only [reopenData]
  generalize FileIo.open_ host s.folder_ (file_name ++ dotData) w = o at hopen hissued ⊢
  have hhead : o.2.tape.length ≤ (if o.1.is_open then s.writeHeader host o.1 time_ns kDataFile o.2
        else (-EINVAL, o.2)).2.tape.length ∧
      (0 ≤ (if o.1.is_open then s.writeHeader host o.1 time_ns kDataFile o.2
        else (-EINVAL, o.2)).1 → o.2.tape.length + sizeofLogFileHeader ≤
          (if o.1.is_open then s.writeHeader host o.1 time_ns kDataFile o.2
            else (-EINVAL, o.2)).2.tape.length) := by
    split_ifs with ho
    · exact writeHeader_appends host s hissued time_ns kDataFile
    · exact ⟨le_rfl, fun hv => absurd hv hnegative⟩
  generalize (if o.1.is_open then s.writeHeader host o.1 time_ns kDataFile o.2
    else (-EINVAL, o.2)) = r at hhead ⊢
  have hlen := hopen.length_tape
  split_ifs with hneg
  · have hclosed : headers { s with
        index_ := some index.close, data_ := some o.1, offset_ :=
          UInt32.ofNat sizeofLogFileHeader } ≤
        sizeofLogFileHeader := headers_of_closed (live_close _)
    have := hhead.1
    dsimp only
    omega
  · have hboth := headers_le ((s.opened host (result + r.1) r.2).2.1)
    have hall := hhead.2 (not_lt.mp hneg)
    have htape : (opened host { s with
        data_ := some o.1, offset_ := UInt32.ofNat sizeofLogFileHeader } (result + r.1)
          r.2).2.2.tape = r.2.tape := rfl
    have hmore := headers_le (opened host { s with
      data_ := some o.1, offset_ := UInt32.ofNat sizeofLogFileHeader } (result + r.1) r.2).2.1
    rw [htape]
    omega

/-- **A stream that is opened has appended the headers of its open files.** -/
lemma reopenFile_headers (host : Host) (hi : live s.index_ = none) (hd : live s.data_ = none)
    (time_ns : UInt64) (w : World) :
    w.tape.length + (s.reopenFile host time_ns w).2.1.headers ≤
      (s.reopenFile host time_ns w).2.2.tape.length := by
  have hzero : w.tape.length + headers { s with offset_ := 0 } ≤ w.tape.length := by
    rw [headers, headerOf_of_closed hi, headerOf_of_closed hd]
    exact le_rfl
  simp only [reopenFile]
  split
  · exact hzero
  · exact hzero
  · rename_i file_name _
    have hopen : w.Grows (FileIo.open_ host s.folder_ (file_name ++ dotIdx) w).2 :=
      (FileIo.reaches_open (D := fun _ => True) _ _ w).grows
    have hissued : (FileIo.open_ host s.folder_ (file_name ++ dotIdx) w).1.is_open = true → _ :=
      open_issued
    simp only [reopenAs]
    generalize FileIo.open_ host s.folder_ (file_name ++ dotIdx) w = o at hopen hissued ⊢
    have hlen := hopen.length_tape
    obtain ⟨s₁, hs₁⟩ : ∃ s₁ : StreamWriter, s₁ =
      { s with offset_ := 0, index_ := some o.1 } :=
      ⟨_, rfl⟩
    have hdead : headerOf s₁.data_ = 0 := by
      rw [hs₁]
      exact headerOf_of_closed hd
    have hhead := writeHeader_appends host s₁ hissued time_ns kIndexFile
    simp only [← hs₁]
    generalize s₁.writeHeader host o.1 time_ns kIndexFile o.2 = r at hhead ⊢
    by_cases ho : o.1.is_open = true
    · simp only [ho, not_true_eq_false, if_false]
      by_cases hr : r.1 ≤ 0
      · have hclosed : headers { s with offset_ := 0, index_ := some o.1.close } = 0 := by
          rw [headers, headerOf_of_closed (live_close _), headerOf_of_closed hd]
        rw [if_pos hr]
        exact (Nat.add_le_add_left hclosed.le _).trans (hlen.trans hhead.1)
      · have hall := hhead.2 (not_le.mp hr).le
        simp only [hr, if_false]
        split_ifs
        · have hdata := reopenData_headers host s₁ file_name o.1 time_ns r.1 r.2
          omega
        · have hone : (s₁.opened host r.1 r.2).2.1.headers ≤ sizeofLogFileHeader := by
            have hsame : (s₁.opened host r.1 r.2).2.1.headers = s₁.headers := rfl
            rw [hsame, headers, hdead, Nat.add_zero]
            exact headerOf_le _
          have htape : (s₁.opened host r.1 r.2).2.2.tape = r.2.tape := rfl
          rw [htape]
          omega
    · have hnone : s₁.headers = 0 := by
        rw [headers, hdead, headerOf_of_closed]
        rw [hs₁, live, Option.filter_some, if_neg ho]
      simp only [ho, Bool.false_eq_true, not_false_eq_true, if_true, hnone]
      exact hlen

end StreamWriter

/-! ## A folder -/

namespace Folder

variable {host : Host} {w : World} {f : Folder}

/-- The headers of the files that the streams of a folder have open. -/
def headers (f : Folder) : ℕ := (f.files_.map fun e => e.2.headers).sum

/-- Every channel has one stream. -/
def Distinct (f : Folder) : Prop := (f.files_.map Prod.fst).Nodup

lemma Distinct.eq_of_lookup (hf : f.Distinct) {channel : Bytes} {s s' : StreamWriter}
    (h : f.files_.lookup channel = some s) (h' : (channel, s') ∈ f.files_) : s' = s := by
  obtain ⟨l₁, l₂, heq, -⟩ := List.lookup_eq_some_iff.mp h
  have hmem : (channel, s) ∈ f.files_ := by simp [heq]
  exact congrArg Prod.snd (List.inj_on_of_nodup_map hf h' hmem rfl)

lemma Distinct.update (hf : f.Distinct) (channel : Bytes) (s : StreamWriter) :
    (f.update channel s).Distinct := by
  have hkeys : (f.update channel s).files_.map Prod.fst = f.files_.map Prod.fst := by
    rw [Folder.update, List.map_map]
    refine List.map_congr_left fun e _ => ?_
    by_cases hc : e.1 = channel <;> simp [hc]
  rw [Distinct, hkeys]
  exact hf

lemma Distinct.add (hf : f.Distinct) {channel : Bytes} (hnew : f.files_.lookup channel = none)
    (s : StreamWriter) : ({ f with files_ := f.files_ ++ [(channel, s)] } : Folder).Distinct := by
  have hout : channel ∉ f.files_.map Prod.fst := fun hmem => by
    obtain ⟨e, he, rfl⟩ := List.mem_map.mp hmem
    simpa using List.lookup_eq_none_iff.mp hnew e he
  rw [Distinct, List.map_append, List.map_singleton]
  exact List.nodup_append.mpr ⟨hf, List.nodup_singleton _, fun a ha b hb => by
    rw [List.mem_singleton.mp hb]
    exact fun heq => hout (by rwa [heq] at ha)⟩

/-- A stream that is replaced by one with fewer open files. -/
lemma headers_update (hf : f.Distinct) {channel : Bytes} {s s' : StreamWriter}
    (h : f.files_.lookup channel = some s) (hle : s'.headers ≤ s.headers) :
    (f.update channel s').headers ≤ f.headers := by
  rw [headers, headers, update, List.map_map]
  refine List.sum_le_sum fun e he => ?_
  by_cases hc : e.1 = channel
  · have hs : e.2 = s := hf.eq_of_lookup h (by rw [← hc]; exact he)
    simpa [hc, hs] using hle
  · simp [hc]

lemma headers_add (f : Folder) (channel : Bytes) (s : StreamWriter) :
    ({ f with files_ := f.files_ ++ [(channel, s)] } : Folder).headers = f.headers + s.headers := by
  simp [headers]

/-- What a write is charged was appended. -/
lemma charged_le {out : Outcome} {need : ℕ} {w w' : World} (hgrows : w.Grows w')
    (h : ∀ v, out = .ret v → Reports need w w' v) :
    w.tape.length + out.charged ≤ w'.tape.length := by
  cases out with
  | ret v => exact (h v rfl).2.2
  | thrown => exact hgrows.length_tape
  | hangs => exact hgrows.length_tape

/-- **What a write is charged and the headers of the files it opens were appended.** -/
lemma writeChannel_charged (host : Host) (hissued : f.Issued w) (hf : f.Distinct)
    {request : LogRequest} (hdata : request.data.length < 2 ^ 31) :
    (f.writeChannel host request w).2.1.Distinct ∧
      w.tape.length + (f.writeChannel host request w).1.charged +
          (f.writeChannel host request w).2.1.headers ≤
        (f.writeChannel host request w).2.2.tape.length + f.headers := by
  cases hlook : f.files_.lookup request.channel with
  | some s =>
      simp only [writeChannel, hlook, writeTo]
      have hgrows := (s.write_reaches host (fun _ => True) request.time_ns request.data w).grows
      have hcharged := charged_le hgrows fun v hv =>
        StreamWriter.write_reports (issued_of_lookup hissued hlook) request.time_ns hdata hv
      have hheaders := headers_update hf hlook
        (s.write_headers host request.time_ns request.data w)
      exact ⟨hf.update _ _, Nat.add_le_add hcharged hheaders⟩
  | none =>
      have hclosed : StreamWriter.Issued w
          { folder_ := f.folder_, name_ := request.channel, record_size_ := request.size } :=
        ⟨fun file hfile => (by cases hfile), fun file hfile => (by cases hfile)⟩
      have hissued₁ : StreamWriter.Issued
          (({ folder_ := f.folder_ } : StreamWriter).openFile host request w).2.2
          (({ folder_ := f.folder_ } : StreamWriter).openFile host request w).2.1 :=
        StreamWriter.reopenFile_issued host hclosed request.time_ns
      have hopened : w.tape.length +
          (({ folder_ := f.folder_ } : StreamWriter).openFile host request w).2.1.headers ≤
          (({ folder_ := f.folder_ } : StreamWriter).openFile host request w).2.2.tape.length :=
        StreamWriter.reopenFile_headers host rfl rfl request.time_ns w
      simp only [writeChannel, hlook]
      generalize ({ folder_ := f.folder_ } : StreamWriter).openFile host request w = o
        at hissued₁ hopened ⊢
      have hdistinct := hf.add hlook o.2.1
      have hadd := headers_add f request.channel o.2.1
      obtain ⟨out, s, w₁⟩ := o
      cases out with
      | ret result =>
          simp only at hissued₁ hopened hdistinct hadd ⊢
          split_ifs with hresult
          · have hnone : (Outcome.ret result).charged = 0 := Int.toNat_of_nonpos hresult
            refine ⟨hdistinct, ?_⟩
            dsimp only
            omega
          · -- the record goes to the stream that was just added
            have hlook₁ : ({ f with files_ := f.files_ ++ [(request.channel, s)] } :
                Folder).files_.lookup request.channel = some s := by
              simp [List.lookup_append, hlook]
            simp only [writeTo]
            have hgrows :=
              (s.write_reaches host (fun _ => True) request.time_ns request.data w₁).grows
            have hcharged := charged_le hgrows fun v hv =>
              StreamWriter.write_reports hissued₁ request.time_ns hdata hv
            have hheaders := headers_update hdistinct hlook₁
              (s.write_headers host request.time_ns request.data w₁)
            refine ⟨hdistinct.update _ _, ?_⟩
            omega
      | thrown =>
          have hnone : Outcome.thrown.charged = 0 := rfl
          refine ⟨hdistinct, ?_⟩
          simp only at hopened hadd ⊢
          omega
      | hangs =>
          have hnone : Outcome.hangs.charged = 0 := rfl
          refine ⟨hdistinct, ?_⟩
          simp only at hopened hadd ⊢
          omega

/-- A new folder has appended the headers of the files it opens. -/
lemma newFolder_charged (host : Host) (root : Path) {request : LogRequest}
    (hdata : request.data.length < 2 ^ 31) (w : World) :
    (({ folder_ := root } : Folder).write host request w).2.1.Distinct ∧
      w.tape.length + (({ folder_ := root } : Folder).write host request w).1.charged +
          (({ folder_ := root } : Folder).write host request w).2.1.headers ≤
        (({ folder_ := root } : Folder).write host request w).2.2.tape.length := by
  obtain ⟨-, -, hfiles, -⟩ := create_confined host root request.time_ns w
  have hgrows := (({ folder_ := root } : Folder).create_reaches host (fun _ => True)
    request.time_ns w trivial).grows.length_tape
  simp only [write, if_true]
  generalize ({ folder_ := root } : Folder).create host request.time_ns w = c at hfiles hgrows ⊢
  obtain ⟨made, f, w₁⟩ := c
  have hdistinct : f.Distinct := by
    rw [Distinct, hfiles]
    exact List.nodup_nil
  have hnone : f.headers = 0 := by
    rw [headers, hfiles]
    rfl
  have hidle : w.tape.length + 0 + f.headers ≤ w₁.tape.length := by
    rw [hnone]
    exact hgrows
  rcases made with _ | _ | _
  · exact ⟨hdistinct, hidle⟩
  · exact ⟨hdistinct, hidle⟩
  · have hissued : f.Issued w₁ := by
      intro e he
      rw [hfiles] at he
      cases he
    obtain ⟨hdistinct', hcharged⟩ := writeChannel_charged host hissued hdistinct hdata
    refine ⟨hdistinct', ?_⟩
    simp only at hgrows ⊢
    omega

end Folder

/-! ## The backend -/

lemma Outcome.charged_of_not_positive {out : Outcome} (h : out.positive = false) :
    out.charged = 0 := by
  cases out with
  | ret v => exact Int.toNat_of_nonpos (by simpa using h)
  | thrown => rfl
  | hangs => rfl

namespace FilesystemStorageBackend

/-- The directory of the active folder. -/
def activeDir (b : FilesystemStorageBackend) : Path :=
  b.folder_path_ ++ [toDec b.folder_.yyyymmdd_]

/-- The active folder has a directory, and it is there. -/
def Housed (b : FilesystemStorageBackend) (w : World) : Prop :=
  b.folder_.yyyymmdd_ ≠ 0 ∧ w.tree.lookup b.activeDir = some .dir

instance (b : FilesystemStorageBackend) (w : World) : Decidable (b.Housed w) :=
  inferInstanceAs (Decidable (_ ∧ _))

/-- The headers of open files that are still on disk, and were not charged. -/
def uncharged (b : FilesystemStorageBackend) (w : World) : ℕ :=
  if b.Housed w then b.folder_.headers else 0

lemma uncharged_le (b : FilesystemStorageBackend) (w : World) :
    b.uncharged w ≤ b.folder_.headers := by
  unfold uncharged
  split_ifs <;> simp

end FilesystemStorageBackend

variable {host : Host} {root : Path} {b : FilesystemStorageBackend} {w : World}

/-- **What a write is charged, with the headers that were not, is on disk afterwards**, unless the
call appends to files that are gone. -/
lemma backend_write_charged (hb : b.Active host root w) (hf : b.folder_.Distinct)
    {request : LogRequest} (hdata : request.data.length < 2 ^ 31)
    (hno : ¬ b.AppendsGone host request w) :
    (b.write host request w).2.1.folder_.Distinct ∧
      (b.write host request w).1.charged +
          (b.write host request w).2.1.uncharged (b.write host request w).2.2 + b.usedBytes w ≤
        b.usedBytes (b.write host request w).2.2 + b.uncharged w := by
  obtain ⟨-, t, ht, hused⟩ := backend_write_active hb hno
  have hlen := congrArg List.length ht
  rw [List.length_append] at hlen
  have huncharged := (b.write host request w).2.1.uncharged_le (b.write host request w).2.2
  by_cases hsame : b.folder_.sameDay host request.time_ns = true
  · have hpos := (host.cal.day_bounds request.time_ns).1
    have hday : b.folder_.yyyymmdd_ = host.cal.Time2YYYYMMDD request.time_ns :=
      of_decide_eq_true hsame
    have hne : b.folder_.yyyymmdd_ ≠ 0 := by omega
    have hactive := hb.folder hne
    have hwrite : b.folder_.write host request w = b.folder_.writeChannel host request w :=
      if_neg hne
    have hback : b.write host request w = ((b.folder_.writeChannel host request w).1,
        { b with folder_ := (b.folder_.writeChannel host request w).2.1 },
        (b.folder_.writeChannel host request w).2.2) := by
      simp only [FilesystemStorageBackend.write, hsame, if_true, hwrite]
    obtain ⟨hdistinct, hcharged⟩ := Folder.writeChannel_charged host hactive.issued hf hdata
    rw [hback] at hlen hused huncharged ⊢
    refine ⟨hdistinct, ?_⟩
    by_cases hhoused : b.Housed w
    · have hall : b.uncharged w = b.folder_.headers := if_pos hhoused
      simp only at hlen hused huncharged hcharged ⊢
      omega
    · -- the directory is gone, and the channel has no open files
      have hgone : w.tree.lookup b.activeDir ≠ some .dir := fun hdir => hhoused ⟨hne, hdir⟩
      have hdir : b.activeDir = dayDir host b.folder_path_ request.time_ns := by
        rw [activeDir, dayDir, hday]
      have hidle : ¬ b.folder_.HasOpen request.channel := fun hopen =>
        hno ⟨hsame, hopen, by rwa [← hdir]⟩
      have hfolder : b.folder_.folder_ = b.activeDir := by
        rw [hactive.folder, activeDir, hb.path]
      obtain ⟨hpositive, hext, -, -⟩ := Folder.writeChannel_gone host (hfolder ▸ hgone) hidle
      have hnothing := Outcome.charged_of_not_positive hpositive
      have hstill : FilesystemStorageBackend.uncharged
          { b with folder_ := (b.folder_.writeChannel host request w).2.1 }
          (b.folder_.writeChannel host request w).2.2 = 0 := by
        refine if_neg fun hhoused' => hgone ?_
        have hthere := hhoused'.2
        rw [activeDir, Folder.yyyymmdd_writeChannel, hext.tree] at hthere
        exact hthere
      simp only at hused ⊢
      omega
  · have hback : b.write host request w =
        ((({ folder_ := b.folder_path_ } : Folder).write host request (b.folder_.close host w)).1,
          { b with folder_ := (({ folder_ := b.folder_path_ } : Folder).write host request
            (b.folder_.close host w)).2.1 },
          (({ folder_ := b.folder_path_ } : Folder).write host request
            (b.folder_.close host w)).2.2) := by
      simp only [FilesystemStorageBackend.write, hsame, Bool.false_eq_true, if_false]
    obtain ⟨hdistinct, hcharged⟩ := Folder.newFolder_charged host b.folder_path_ hdata
      (b.folder_.close host w)
    have hclose := congrArg List.length (b.folder_.close_extends host w).tape
    rw [List.append_nil] at hclose
    rw [hback] at hlen hused huncharged ⊢
    refine ⟨hdistinct, ?_⟩
    simp only at hlen hused huncharged hcharged ⊢
    omega

end Tracebox
