import Tracebox.Writer.StreamWriter

/-!
# The two files of a stream

What a stream is for: a list of records under a channel name.  `Stream.index` and
`Stream.dataFile` are the bytes of its two files as a function of that list, so "the files hold
these records" is an equation, and "the files were cut" is `List.IsPrefix`.

* `Stream.index_push`, `Stream.dataFile_push` — one more record appends one block to each file.
* `Stream.slice_index`, `Stream.slice_dataFile` — where record `i` is found again.
* `Stream.tape` — the order in which the bytes are issued, the data block of a record before its
  index entry; `Stream.record_within` draws the consequence for every cut: **a complete index
  entry has its data block in front of it**.
-/

namespace Tracebox

open Bytes

/-- One record as it is handed to a writer. -/
structure Record where
  time_ns : UInt64
  data : Bytes
  deriving DecidableEq, Repr

/-- The record as a reader returns it. -/
def Record.piece (r : Record) : DataPiece := { time_ns := r.time_ns, data := r.data }

/-- One log stream: a channel, a record size (`0` for variable-size records), the time in its
headers and its records in write order. -/
structure Stream where
  channel : Bytes
  record_size : UInt32
  opened : UInt64
  records : List Record
  deriving DecidableEq

namespace Stream

/-! ## Layout -/

/-- The header of a file of the stream. -/
def header (st : Stream) (type : UInt8) : LogFileHeader where
  header_size_ := UInt16.ofNat sizeofLogFileHeader
  timestamp_ns_ := st.opened
  record_size_ := st.record_size
  major_version_ := kDlFormatMajor
  minor_version_ := kDlFormatMinor
  file_type_ := type
  name_ := nameField st.channel
  name_length := length_nameField st.channel

/-- The room a variable-size record takes in the data file. -/
def room (r : Record) : ℕ := 12 + r.data.length

/-- The records with their positions in the data file, the first one at `off`. -/
def located : ℕ → List Record → List (Record × ℕ)
  | _, [] => []
  | off, r :: rs => (r, off) :: located (off + room r) rs

/-- The position behind the first `i` records. -/
def offsetOf (st : Stream) (i : ℕ) : ℕ :=
  sizeofLogFileHeader + ((st.records.take i).map room).sum

/-- The position of the next record. -/
def endOffset (st : Stream) : ℕ := sizeofLogFileHeader + (st.records.map room).sum

/-- The index entry of a located record. -/
def indexBlock (st : Stream) (e : Record × ℕ) : Bytes :=
  toLE 8 e.1.time_ns.toNat ++ if st.record_size = 0 then toLE 4 e.2 else e.1.data

/-- What a record adds to the data file. -/
def dataBlock (st : Stream) (r : Record) : Bytes :=
  if st.record_size = 0 then toLE 8 r.time_ns.toNat ++ (toLE 4 r.data.length ++ r.data) else []

/-- The index file. -/
def index (st : Stream) : Bytes :=
  (st.header kIndexFile).encode ++
    (located sizeofLogFileHeader st.records).flatMap st.indexBlock

/-- What the data file begins with: nothing for fixed-size records, which have none. -/
def dataHeader (st : Stream) : Bytes :=
  if st.record_size = 0 then (st.header kDataFile).encode else []

/-- The data file; a stream of fixed-size records has none. -/
def dataFile (st : Stream) : Bytes := st.dataHeader ++ st.records.flatMap st.dataBlock

/-- The stream with one more record. -/
def push (st : Stream) (r : Record) : Stream := { st with records := st.records ++ [r] }

/-- The width of an index entry. -/
def entrySize (st : Stream) : ℕ := if st.record_size = 0 then 12 else 8 + st.record_size.toNat

/-- A stream the reader can be expected to read: the name fits its field, every record has the
size the header announces, and 32 bits are enough for the sizes of both files. -/
structure Fits (st : Stream) : Prop where
  channel_le : st.channel.length ≤ 31
  channel_nul : (0 : UInt8) ∉ st.channel
  sized : st.record_size ≠ 0 → ∀ r ∈ st.records, r.data.length = st.record_size.toNat
  index_lt : st.index.length < 2 ^ 32
  data_lt : st.dataFile.length < 2 ^ 32

/-! ## One more record -/

lemma located_append (off : ℕ) (rs : List Record) (r : Record) :
    located off (rs ++ [r]) = located off rs ++ [(r, off + (rs.map room).sum)] := by
  induction rs generalizing off with
  | nil => simp [located]
  | cons a rs ih => simp [located, ih, Nat.add_assoc]

@[simp] lemma length_located (off : ℕ) (rs : List Record) :
    (located off rs).length = rs.length := by
  induction rs generalizing off with
  | nil => rfl
  | cons a rs ih => simp [located, ih]

@[simp] lemma records_push (st : Stream) (r : Record) :
    (st.push r).records = st.records ++ [r] := rfl
@[simp] lemma record_size_push (st : Stream) (r : Record) :
    (st.push r).record_size = st.record_size := rfl
@[simp] lemma header_push (st : Stream) (r : Record) : (st.push r).header = st.header := rfl
@[simp] lemma dataHeader_push (st : Stream) (r : Record) :
    (st.push r).dataHeader = st.dataHeader := rfl
@[simp] lemma indexBlock_push (st : Stream) (r : Record) :
    (st.push r).indexBlock = st.indexBlock := rfl
@[simp] lemma dataBlock_push (st : Stream) (r : Record) :
    (st.push r).dataBlock = st.dataBlock := rfl

lemma index_push (st : Stream) (r : Record) :
    (st.push r).index = st.index ++ st.indexBlock (r, st.endOffset) := by
  simp [index, located_append, endOffset]

lemma dataFile_push (st : Stream) (r : Record) :
    (st.push r).dataFile = st.dataFile ++ st.dataBlock r := by
  simp [dataFile]

lemma endOffset_push (st : Stream) (r : Record) :
    (st.push r).endOffset = st.endOffset + room r := by
  simp [endOffset, Nat.add_assoc]

/-! ## Sizes -/

lemma length_dataBlock {st : Stream} (h : st.record_size = 0) (r : Record) :
    (st.dataBlock r).length = room r := by
  simp only [dataBlock, h, if_true, List.length_append, length_toLE, room]
  omega

lemma length_dataFile {st : Stream} (h : st.record_size = 0) :
    st.dataFile.length = st.endOffset := by
  have hl : ∀ l : List Record, (l.flatMap st.dataBlock).length = (l.map room).sum := by
    intro l
    induction l with
    | nil => rfl
    | cons a l ih =>
        rw [List.flatMap_cons, List.length_append, ih, length_dataBlock h, List.map_cons,
          List.sum_cons]
  rw [dataFile, List.length_append, hl, dataHeader, if_pos h, LogFileHeader.length_encode,
    endOffset]

lemma length_indexBlock {st : Stream} {e : Record × ℕ}
    (h : st.record_size ≠ 0 → e.1.data.length = st.record_size.toNat) :
    (st.indexBlock e).length = st.entrySize := by
  by_cases h0 : st.record_size = 0
  · simp [indexBlock, entrySize, h0]
  · simp [indexBlock, entrySize, h0, h h0]

lemma indexBlock_ne_nil (st : Stream) (e : Record × ℕ) : st.indexBlock e ≠ [] := by
  intro h
  have := congrArg List.length h
  simp [indexBlock] at this

lemma fst_mem_of_mem_located {off : ℕ} {rs : List Record} {e : Record × ℕ}
    (he : e ∈ located off rs) : e.1 ∈ rs := by
  induction rs generalizing off with
  | nil => simp [located] at he
  | cons a rs ih =>
      rcases List.mem_cons.mp he with rfl | he
      · exact List.mem_cons_self
      · exact List.mem_cons_of_mem _ (ih he)

lemma uniform {st : Stream} (hf : st.record_size ≠ 0 → ∀ r ∈ st.records,
    r.data.length = st.record_size.toNat) :
    ∀ e ∈ located sizeofLogFileHeader st.records, (st.indexBlock e).length = st.entrySize :=
  fun _ he => length_indexBlock fun h0 => hf h0 _ (fst_mem_of_mem_located he)

lemma length_index {st : Stream} (hf : st.record_size ≠ 0 → ∀ r ∈ st.records,
    r.data.length = st.record_size.toNat) :
    st.index.length = sizeofLogFileHeader + st.entrySize * st.records.length := by
  rw [index, List.length_append, LogFileHeader.length_encode,
    length_flatMap_uniform (uniform hf), length_located]

/-- An index of variable-size records is no longer than the data file beside it. -/
lemma length_index_le {st : Stream} (h : st.record_size = 0) :
    st.index.length ≤ st.endOffset := by
  have hsum : ∀ l : List Record, 12 * l.length ≤ (l.map room).sum := by
    intro l
    induction l with
    | nil => simp
    | cons a l ih =>
        simp only [List.length_cons, List.map_cons, List.sum_cons, room]
        omega
  rw [length_index fun h0 => absurd h h0, entrySize, if_pos h, endOffset]
  have := hsum st.records
  omega

/-! ## Finding a record again -/

lemma getElem_located (off : ℕ) {rs : List Record} {i : ℕ} (hi : i < rs.length) :
    (located off rs)[i]? = some (rs[i], off + ((rs.take i).map room).sum) := by
  induction rs generalizing off i with
  | nil => simp at hi
  | cons a rs ih =>
      cases i with
      | zero => simp [located]
      | succ i =>
          have hrest : i < rs.length := by simpa using hi
          have := ih (off + room a) hrest
          simp only [located, List.getElem?_cons_succ, this, List.getElem_cons_succ,
            List.take_succ_cons, List.map_cons, List.sum_cons, Nat.add_assoc]

/-- The index entry of record `i`. -/
lemma slice_index {st : Stream} (hf : st.record_size ≠ 0 → ∀ r ∈ st.records,
    r.data.length = st.record_size.toNat) {i : ℕ} (hi : i < st.records.length) :
    slice st.index (sizeofLogFileHeader + st.entrySize * i) st.entrySize =
      st.indexBlock (st.records[i], st.offsetOf i) := by
  have hl : i < (located sizeofLogFileHeader st.records).length := by simpa using hi
  have hhead : sizeofLogFileHeader + st.entrySize * i =
      (st.header kIndexFile).encode.length + st.entrySize * i := by
    rw [LogFileHeader.length_encode]
  have he := getElem_located sizeofLogFileHeader hi
  rw [List.getElem?_eq_getElem hl, Option.some.injEq] at he
  rw [index, hhead, slice_append_right, slice_flatMap (uniform hf) hl, he, offsetOf]

lemma offsetOf_succ {st : Stream} {i : ℕ} (hi : i < st.records.length) :
    st.offsetOf (i + 1) = st.offsetOf i + room st.records[i] := by
  rw [offsetOf, offsetOf, List.take_succ_eq_append_getElem hi, List.map_append, List.sum_append,
    List.map_singleton, List.sum_singleton, Nat.add_assoc]

/-- The stream as it was after its first `i` records. -/
def upTo (st : Stream) (i : ℕ) : Stream := { st with records := st.records.take i }

lemma endOffset_upTo (st : Stream) (i : ℕ) : (st.upTo i).endOffset = st.offsetOf i := rfl

lemma upTo_succ {st : Stream} {i : ℕ} (hi : i < st.records.length) :
    st.upTo (i + 1) = (st.upTo i).push st.records[i] := by
  rw [upTo, List.take_succ_eq_append_getElem hi, push, upTo]

lemma upTo_length (st : Stream) : st.upTo st.records.length = st := by
  simp [upTo]

/-- A stream's data file begins with what it was at any earlier point. -/
lemma dataFile_upTo_prefix (st : Stream) (i : ℕ) : (st.upTo i).dataFile <+: st.dataFile := by
  refine ⟨(st.records.drop i).flatMap st.dataBlock, ?_⟩
  have hb : (st.upTo i).dataBlock = st.dataBlock := rfl
  have hh : (st.upTo i).dataHeader = st.dataHeader := rfl
  rw [dataFile, dataFile, hb, hh, List.append_assoc, ← List.flatMap_append, upTo,
    List.take_append_drop]

lemma offsetOf_le_endOffset (st : Stream) (i : ℕ) (h : st.record_size = 0) :
    st.offsetOf i ≤ st.endOffset := by
  have := (st.dataFile_upTo_prefix i).length_le
  have hcut : (st.upTo i).dataFile.length = (st.upTo i).endOffset := length_dataFile h
  rwa [hcut, length_dataFile h, endOffset_upTo] at this

/-- The data block of record `i`. -/
lemma slice_dataFile {st : Stream} (h : st.record_size = 0) {i : ℕ}
    (hi : i < st.records.length) :
    slice st.dataFile (st.offsetOf i) (room st.records[i]) = st.dataBlock st.records[i] := by
  have hp := st.dataFile_upTo_prefix (i + 1)
  have hcut : (st.upTo i).dataFile.length = (st.upTo i).endOffset := length_dataFile h
  have hlen : (st.upTo i).dataFile.length = st.offsetOf i := hcut
  rw [upTo_succ hi, dataFile_push] at hp
  have hb : (st.upTo i).dataBlock st.records[i] = st.dataBlock st.records[i] := rfl
  have hroom := length_dataBlock h st.records[i]
  rw [hb] at hp
  rw [← slice_of_isPrefix hp (by rw [List.length_append, hlen, hroom])]
  have := slice_append_right (st.upTo i).dataFile (st.dataBlock st.records[i]) 0
    (st.dataBlock st.records[i]).length
  rw [hlen, Nat.add_zero, slice_zero_length, hroom] at this
  exact this

/-! ## The order of the appends -/

/-- The bytes of a stream in the order they are issued: both headers, then for every record the
data block and after it the index entry. -/
def tape (st : Stream) (i d : ℕ) : List (ℕ × UInt8) :=
  Tape.tag i (st.header kIndexFile).encode ++ (Tape.tag d st.dataHeader ++
    (located sizeofLogFileHeader st.records).flatMap fun e =>
      Tape.tag d (st.dataBlock e.1) ++ Tape.tag i (st.indexBlock e))

lemma tape_push (st : Stream) (i d : ℕ) (r : Record) :
    (st.push r).tape i d = st.tape i d ++
      (Tape.tag d (st.dataBlock r) ++ Tape.tag i (st.indexBlock (r, st.endOffset))) := by
  simp [tape, located_append, endOffset]

lemma tape_upTo_prefix (st : Stream) (i d n : ℕ) : (st.upTo n).tape i d <+: st.tape i d := by
  have key : ∀ k n, n + k = st.records.length → (st.upTo n).tape i d <+: st.tape i d := by
    intro k
    induction k with
    | zero =>
        intro n hn
        rw [show n = st.records.length by omega, upTo_length]
    | succ k ih =>
        intro n hn
        refine List.IsPrefix.trans ?_ (ih (n + 1) (by omega))
        rw [upTo_succ (by omega), tape_push]
        exact List.prefix_append _ _
  by_cases hn : n ≤ st.records.length
  · exact key (st.records.length - n) n (by omega)
  · rw [upTo, List.take_of_length_le (by omega)]

/-- The tape shows exactly the two files. -/
lemma project_tape {i d : ℕ} (hne : i ≠ d) (st : Stream) :
    Tape.project i (st.tape i d) = st.index ∧ Tape.project d (st.tape i d) = st.dataFile := by
  have key : ∀ n, n ≤ st.records.length →
      Tape.project i ((st.upTo n).tape i d) = (st.upTo n).index ∧
        Tape.project d ((st.upTo n).tape i d) = (st.upTo n).dataFile := by
    intro n
    induction n with
    | zero =>
        intro _
        simp [upTo, tape, located, index, dataFile, Tape.project_tag_of_ne hne,
          Tape.project_tag_of_ne hne.symm]
    | succ n ih =>
        intro hn
        obtain ⟨hi, hd⟩ := ih (by omega)
        rw [upTo_succ (by omega), tape_push, index_push, dataFile_push]
        simp [hi, hd, Tape.project_tag_of_ne hne, Tape.project_tag_of_ne hne.symm]
  simpa [upTo_length] using key _ le_rfl

/-- **A complete index entry has its data block in front of it.**  Whenever a cut `p` of the tape
shows the index file up to and including entry `k`, every later cut `q` shows the data file up to
and including record `k`. -/
theorem record_within {i d : ℕ} (hne : i ≠ d) {st : Stream} {p q k : ℕ} (hpq : p ≤ q)
    (hk : k < st.records.length)
    (hp : (st.upTo (k + 1)).index.length ≤ (Tape.project i ((st.tape i d).take p)).length) :
    (st.upTo (k + 1)).dataFile <+: Tape.project d ((st.tape i d).take q) := by
  have hnil := (st.upTo k).indexBlock_ne_nil (st.records[k], (st.upTo k).endOffset)
  obtain ⟨bs, b, hb⟩ : ∃ bs b, (st.upTo k).indexBlock (st.records[k], (st.upTo k).endOffset)
      = bs ++ [b] := ⟨_, _, (List.dropLast_append_getLast hnil).symm⟩
  -- the tape up to the last byte of the entry
  obtain ⟨u, hu⟩ : ∃ u, (st.upTo (k + 1)).tape i d = u ++ [(i, b)] := by
    refine ⟨(st.upTo k).tape i d ++
      (Tape.tag d ((st.upTo k).dataBlock st.records[k]) ++ Tape.tag i bs), ?_⟩
    rw [upTo_succ hk, tape_push, hb, Tape.tag_append]
    simp [Tape.tag]
  have hpre : u ++ [(i, b)] <+: st.tape i d := hu ▸ st.tape_upTo_prefix i d (k + 1)
  have hlen : (u ++ [(i, b)]).length ≤ p := by
    refine Tape.length_le_of_project hpre ?_
    rwa [← hu, (project_tape hne (st.upTo (k + 1))).1]
  have htake : u ++ [(i, b)] <+: (st.tape i d).take q :=
    List.prefix_take_iff.mpr ⟨hpre, hlen.trans hpq⟩
  have hdata := Tape.project_mono d htake
  rwa [← hu, (project_tape hne (st.upTo (k + 1))).2] at hdata

end Stream

end Tracebox
