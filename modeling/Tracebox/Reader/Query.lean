import Tracebox.Reader.Locality
import Tracebox.Lib.Paging

/-!
# What `getData` answers

Three laws of a query, each with the requests that break it.

**The plain meaning.**  `StreamReader.matching` reads every record from a position on and keeps
those in the range.  The loop of `getData` computes its first `max_size` elements (`collect_data`),
but `matchTime` is asked first, and it knows the first and the last timestamp only.  With timestamps
in any order it can say no to a range that has records: `getData_matching_iff`.

**Paging.**  `start_idx` counts positions and `max_size` counts records.  A client that adds up the
records it has received never misses one, and receives each once **exactly when the records of the
range are the first of the stream**: `paged_iff`.

**Errors.**  A position whose stored time or offset is `0` fails without a message, and what the
response then gets is the message of the last record before it that was looked up, or nothing:
`unreadable_reported_iff`.
-/

namespace Tracebox

open Bytes

/-! ## Records of a range -/

namespace StreamReader

variable {r r' : StreamReader}

/-- The calls before a position, and the call for it. -/
lemma getElem?_reads (r : StreamReader) {a k n : ℕ} (hk : k < n) :
    (r.reads (List.range' a n)).1[k]? = some ((r.reads (List.range' a k)).2.read (a + k)).1 := by
  have happend := @List.range'_append_1 a k (n - k)
  rw [Nat.add_sub_cancel' hk.le] at happend
  obtain ⟨rest, hrest⟩ : ∃ rest, n - k = rest + 1 := ⟨n - k - 1, by omega⟩
  have hlen : (r.reads (List.range' a k)).1.length = k := by rw [length_reads, List.length_range']
  rw [← happend, reads_append, List.getElem?_append_right hlen.le, hlen, Nat.sub_self, hrest,
    List.range'_succ, reads, List.getElem?_cons_zero]

/-- The record if its time is in the range. -/
def within (start end_ : UInt64) (data : DataPiece) : Bool :=
  decide (start ≤ data.time_ns ∧ data.time_ns ≤ end_)

/-- Reading `remaining` positions from `idx` on, without the unreadable ones and those outside the
range. -/
def matching (r : StreamReader) (start end_ : UInt64) (idx remaining : ℕ) : List DataPiece :=
  (r.reads (List.range' idx remaining)).1.reduceOption.filter (within start end_)

lemma matching_zero (r : StreamReader) (start end_ : UInt64) (idx : ℕ) :
    r.matching start end_ idx 0 = [] := rfl

lemma matching_succ (r : StreamReader) (start end_ : UInt64) (idx remaining : ℕ) :
    r.matching start end_ idx (remaining + 1) =
      (r.read idx).1.toList.filter (within start end_) ++
        (r.read idx).2.matching start end_ (idx + 1) remaining := by
  rw [matching, matching, List.range'_succ, reads]
  cases hread : (r.read idx).1 with
  | none => simp only [List.reduceOption_cons_of_none, Option.toList_none, List.filter_nil,
      List.nil_append]
  | some data =>
      rw [List.reduceOption_cons_of_some, Option.toList_some, List.filter_cons, List.filter_cons,
        List.filter_nil]
      split_ifs <;> rfl

end StreamReader

namespace StorageScanner

open StreamReader

/-- One round of the loop: the record if it is in the range, the text if there is none. -/
lemma collect_succ (start end_ : UInt64) {max_size : ℕ} (remaining idx : ℕ) (r : StreamReader)
    {result : DataStreamsResponse} (hroom : result.data.length < max_size) :
    ∃ result' : DataStreamsResponse,
      collect start end_ max_size (remaining + 1) idx r result =
        collect start end_ max_size remaining (idx + 1) (r.read idx).2 result' ∧
      result'.data = result.data ++ (r.read idx).1.toList.filter (within start end_) ∧
      result'.errors = if (r.read idx).1 = none then (r.read idx).2.last_error
        else result.errors := by
  rw [collect, if_pos hroom]
  cases hread : (r.read idx).1 with
  | none =>
      refine ⟨{ result with errors := (r.read idx).2.last_error }, ?_, ?_, ?_⟩
      · simp only [hread]
      · rw [Option.toList_none, List.filter_nil, List.append_nil]
      · rw [if_pos rfl]
  | some data =>
      by_cases hin : start ≤ data.time_ns ∧ data.time_ns ≤ end_
      · refine ⟨{ result with data := result.data ++ [data] }, ?_, ?_, ?_⟩
        · simp only [hread, if_pos hin]
        · rw [Option.toList_some, List.filter_singleton, within, decide_eq_true hin, cond_true]
        · rw [if_neg (Option.some_ne_none _)]
      · refine ⟨result, ?_, ?_, ?_⟩
        · simp only [hread, if_neg hin]
        · rw [Option.toList_some, List.filter_singleton, within, decide_eq_false hin, cond_false,
            List.append_nil]
        · rw [if_neg (Option.some_ne_none _)]

/-- A record takes at most one place. -/
lemma length_filter_toList_le (o : Option DataPiece) (q : DataPiece → Bool) :
    (o.toList.filter q).length ≤ 1 :=
  (List.length_filter_le _ _).trans (by cases o <;> simp)

/-- **The loop of `getData`** adds matching records until there are `max_size`. -/
lemma collect_data (start end_ : UInt64) (max_size : ℕ) {remaining : ℕ} :
    ∀ {idx : ℕ} {r : StreamReader} {result : DataStreamsResponse},
      (collect start end_ max_size remaining idx r result).data =
        result.data ++
          (r.matching start end_ idx remaining).take (max_size - result.data.length) := by
  induction remaining with
  | zero =>
      intro idx r result
      rw [matching_zero, List.take_nil, List.append_nil]
      rfl
  | succ remaining ih =>
      intro idx r result
      by_cases hroom : result.data.length < max_size
      · obtain ⟨result', heq, hdata, -⟩ := collect_succ start end_ remaining idx r hroom
        have hle := length_filter_toList_le (r.read idx).1 (within start end_)
        have hkeep := List.take_of_length_le
          (show ((r.read idx).1.toList.filter (within start end_)).length ≤
            max_size - result.data.length by omega)
        rw [heq, ih, hdata, matching_succ, List.take_append, hkeep, List.append_assoc,
          List.length_append, Nat.sub_sub]
      · have hfull : max_size - result.data.length = 0 := by omega
        rw [collect, if_neg hroom, hfull, List.take_zero, List.append_nil]

/-- The records of the response: none for a range that does not match, else those of the plain
reading. -/
lemma respond_data (r : StreamReader) (start end_ : UInt64) (start_idx max_size : UInt32) :
    (respond r start end_ start_idx max_size).data =
      if r.matchTime start end_ then
        (r.matching start end_ start_idx.toNat (r.records_cnt.getD 0 - start_idx.toNat)).take
          max_size.toNat
      else [] := by
  rw [respond]
  by_cases hmatch : r.matchTime start end_ = true
  · rw [if_neg (not_not.mpr hmatch), if_pos hmatch]
    split_ifs with hidx
    · rw [Nat.sub_eq_zero_of_le hidx, matching_zero, List.take_nil]
    · rw [collect_data]
      rfl
  · rw [if_pos hmatch, if_neg hmatch]

/-- **The records of a response are the first `max_size` matching ones exactly when the shortcut
does not apply**: the range overlaps the first and the last timestamp, or no record was asked for,
or there is none. -/
theorem getData_matching_iff (s : StorageScanner) (v : View) (file : Bytes) (p : Path)
    (hres : s.resolveIndexPath v file = some p) (start end_ : UInt64)
    (start_idx max_size : UInt32) :
    let r := StreamReader.make v p
    let records := r.matching start end_ start_idx.toNat (r.records_cnt.getD 0 - start_idx.toNat)
    (s.getData v file start end_ start_idx max_size).data = records.take max_size.toNat ↔
      r.matchTime start end_ = true ∨ max_size.toNat = 0 ∨ records = [] := by
  intro r records
  rw [getData_of_some hres, respond_data]
  by_cases hmatch : r.matchTime start end_ = true
  · rw [if_pos hmatch]
    exact iff_of_true rfl (Or.inl hmatch)
  · rw [if_neg hmatch, or_iff_right hmatch, ← List.take_eq_nil_iff]
    exact eq_comm

/-- The header of an index file with records of one byte. -/
def sampleHeader : LogFileHeader :=
  StreamWriter.header { folder_ := [], name_ := ascii "a", record_size_ := 1 } 1 kIndexFile

/-- An index file of two records of one byte each, with the given times. -/
def sampleBytes (first second : ℕ) : Bytes :=
  sampleHeader.encode ++ (toLE 8 first ++ (ascii "x" ++ (toLE 8 second ++ ascii "y")))

/-- The index file of the examples. -/
def sampleIndex : Path := [ascii "root", ascii "20240101", ascii "a.idx"]

/-- A storage root with that file. -/
def twoRecords (first second : ℕ) : View where
  look p :=
    if p = [ascii "root"] ∨ p = [ascii "root", ascii "20240101"] then some .dir
    else if p = sampleIndex then some (.file (sampleBytes first second))
    else none
  children _ := []
  weakly_canonical p := some (normalize p)
  overrun _ := []

/-- The last record is before the first one. -/
theorem getData_matching_two :
    ((StorageScanner.mk [ascii "root"]).getData (twoRecords 5 1) (ascii "20240101/a.idx") 1 5 0
      9).data = ((StreamReader.make (twoRecords 5 1) sampleIndex).matching 1 5 0 2).take 9 := by
  have hcount : (StreamReader.make (twoRecords 5 1) sampleIndex).records_cnt.getD 0 = 2 := by
    decide +kernel
  have hmatch : (StreamReader.make (twoRecords 5 1) sampleIndex).matchTime 1 5 = true := by
    decide +kernel
  have hget := (getData_matching_iff ⟨[ascii "root"]⟩ (twoRecords 5 1) (ascii "20240101/a.idx")
    sampleIndex (by decide +kernel) 1 5 0 9).mpr (Or.inl hmatch)
  rwa [hcount] at hget

/-- The times are 5 and 1.  The record at time 5 is in the range from 5 to 9, and is not in the
response. -/
theorem shortcut_hides_record :
    let s : StorageScanner := ⟨[ascii "root"]⟩
    let r := StreamReader.make (twoRecords 5 1) sampleIndex
    s.resolveIndexPath (twoRecords 5 1) (ascii "20240101/a.idx") = some sampleIndex ∧
    r.status_ = .kHealthy ∧ r.records_cnt = some 2 ∧
    r.matching 5 9 0 2 = [⟨5, ascii "x", 0⟩] ∧
    (s.getData (twoRecords 5 1) (ascii "20240101/a.idx") 5 9 0 9).data ≠
      (r.matching 5 9 0 2).take 9 := by
  decide +kernel

/-! ## Paging -/

/-- The records by their positions; nothing where a position is unreadable or outside the range. -/
def positions (r : StreamReader) (start end_ : UInt64) : List (Option DataPiece) :=
  (r.reads (List.range' 0 (r.records_cnt.getD 0))).1.map fun o => o.filter (within start end_)

lemma reduceOption_map_filter {α : Type*} (q : α → Bool) (K : List (Option α)) :
    (K.map fun o => o.filter q).reduceOption = K.reduceOption.filter q := by
  induction K with
  | nil => rfl
  | cons o K ih =>
      cases o with
      | none => simpa [List.reduceOption_cons_of_none] using ih
      | some x =>
          rw [List.map_cons, List.reduceOption_cons_of_some, List.filter_cons, Option.filter_some]
          split_ifs
          · rw [List.reduceOption_cons_of_some, ih]
          · rw [List.reduceOption_cons_of_none, ih]

/-- **A new reader from a position on**, when the calls before it would have set no fail bit. -/
lemma matching_eq_drop {r : StreamReader} (start end_ : UInt64) {i : ℕ}
    (hi : i ≤ r.records_cnt.getD 0) (hlike : StreamReader.Like r (r.reads (List.range' 0 i)).2) :
    r.matching start end_ i (r.records_cnt.getD 0 - i) =
      ((positions r start end_).drop i).reduceOption := by
  have hsplit : List.range' 0 (r.records_cnt.getD 0) =
      List.range' 0 i ++ List.range' i (r.records_cnt.getD 0 - i) := by
    have happend := @List.range'_append_1 0 i (r.records_cnt.getD 0 - i)
    rw [Nat.zero_add, Nat.add_sub_cancel' hi] at happend
    exact happend.symm
  have hlen : (r.reads (List.range' 0 i)).1.length = i := by
    rw [length_reads, List.length_range']
  rw [positions, ← List.map_drop, reduceOption_map_filter, hsplit, reads_append]
  rw [List.drop_append, hlen, Nat.sub_self, List.drop_zero, List.drop_eq_nil_of_le hlen.le,
    List.nil_append, matching, (reads_like _ hlike).1]

/-- The positions a client that pages comes to: they are in the stream, and a reader that begins
there finds what one reader of the whole stream finds. -/
def Reached (r : StreamReader) (i : ℕ) : Prop :=
  i ≤ r.records_cnt.getD 0 ∧ StreamReader.Like r (r.reads (List.range' 0 i)).2

/-- **Where the next page begins.**  The last record of a page stands at this position or in front
of it, so it vouches for what is there. -/
lemma reached_next {v : View} {p : Path} {start end_ : UInt64} {m i : ℕ}
    (hhealthy : (StreamReader.make v p).status_ = .kHealthy)
    (hne : Paging.items (positions (StreamReader.make v p) start end_) m i ≠ []) :
    Reached (StreamReader.make v p)
      (i + (Paging.items (positions (StreamReader.make v p) start end_) m i).length) := by
  obtain ⟨h, I, data, -, -, hold, -, halone, -⟩ := make_holding hhealthy
  generalize StreamReader.make v p = r at hne hold ⊢
  obtain ⟨n, hn⟩ : ∃ n, (Paging.items (positions r start end_) m i).length = n + 1 :=
    ⟨_, (Nat.succ_pred_eq_of_pos (List.length_pos_iff.mpr hne)).symm⟩
  have hlen : (positions r start end_).length = r.records_cnt.getD 0 := by
    rw [positions, List.length_map, length_reads, List.length_range']
  -- behind all but one of the positions the page has passed there is still a record
  have hmore : ((positions r start end_).drop (i + n)).reduceOption ≠ [] := by
    intro hnil
    have hsplit := congrArg List.length
      (Paging.reduceOption_split ((positions r start end_).drop i) n)
    have hfront := (List.reduceOption_length_le (((positions r start end_).drop i).take n)).trans
      (List.length_take_le _ _)
    rw [List.drop_drop, hnil, List.append_nil] at hsplit
    have hpage : (Paging.items (positions r start end_) m i).length ≤
        ((positions r start end_).drop i).reduceOption.length := List.length_take_le' _ _
    omega
  obtain ⟨data', hdata'⟩ := List.exists_mem_of_ne_nil _ hmore
  obtain ⟨k, hk⟩ := List.mem_iff_getElem?.mp (List.reduceOption_mem_iff.mp hdata')
  rw [List.getElem?_drop] at hk
  obtain ⟨hlt, -⟩ := List.getElem?_eq_some_iff.mp hk
  rw [hlen] at hlt
  have hfound : ((r.reads (List.range' 0 (i + n + k))).2.read (i + n + k)).1 ≠ none := by
    rw [positions, List.getElem?_map, getElem?_reads r hlt, Nat.zero_add, Option.map_some,
      Option.some.injEq] at hk
    intro hnone
    simp [hnone] at hk
  rw [hn]
  refine ⟨by omega, like_reads hold halone.mpr hfound ⟨List.range' (i + (n + 1)) k, ?_⟩⟩
  have hfront := @List.range'_append_1 0 (i + (n + 1)) k
  have hlast := @List.range'_append_1 0 (i + n + k) 1
  rw [Nat.zero_add] at hfront hlast
  rw [hfront, ← List.range'_one, hlast]
  congr 1
  omega

/-- **Paging by the number of records received.**  No record is missing, and each is received once
exactly when the range does not match or its records are the first of the stream. -/
theorem paged_iff (s : StorageScanner) (v : View) (file : Bytes) (p : Path)
    (hres : s.resolveIndexPath v file = some p) (start end_ : UInt64) (m : UInt32) (hm : 0 < m) :
    let page := fun i : ℕ => (s.getData v file start end_ (UInt32.ofNat i) m).data
    let single := (s.getData v file start end_ 0 (UInt32.ofNat UINT32_MAX)).data
    let r := StreamReader.make v p
    (∃ all, Paging.Paged page 0 all) ∧ ∀ all, Paging.Paged page 0 all →
      single.Sublist all ∧
      (all = single ↔ r.matchTime start end_ = false ∨
        Paging.Leading (positions r start end_)) := by
  intro page single r
  have hpage : ∀ i, page i = if r.matchTime start end_ then
      (r.matching start end_ (UInt32.ofNat i).toNat
        (r.records_cnt.getD 0 - (UInt32.ofNat i).toNat)).take m.toNat else [] := fun i => by
    simp only [page, getData_of_some hres, respond_data]
    rfl
  have hsingle : single = if r.matchTime start end_ then
      (r.matching start end_ 0 (r.records_cnt.getD 0)).take UINT32_MAX else [] := by
    simp only [single, getData_of_some hres, respond_data]
    rfl
  by_cases hmatch : r.matchTime start end_ = true
  · simp only [hmatch, if_true] at hpage hsingle
    have hhealthy : r.status_ = .kHealthy := by
      simp only [StreamReader.matchTime, Bool.and_eq_true, decide_eq_true_eq] at hmatch
      exact hmatch.1
    obtain ⟨hlike, hcount⟩ : StreamReader.Like r r ∧ r.records_cnt.getD 0 < 2 ^ 32 := by
      obtain ⟨h, I, data, -, -, hold, -⟩ := make_holding hhealthy
      refine ⟨⟨h, I, data, data, hold, hold, .refl data⟩, ?_⟩
      obtain ⟨index, hr, hopens⟩ := hold
      have hcnt : r.records_cnt.getD 0 = h.entryCount I := by
        rw [show r = _ from hr, StreamReader.records_cnt, Option.map_some, Option.getD_some,
          hopens.count]
      rw [hcnt]
      exact ((Nat.div_le_self _ _).trans (Nat.sub_le _ _)).trans_lt (Nat.mod_lt _ (by norm_num))
    have hlen : (positions r start end_).length = r.records_cnt.getD 0 := by
      rw [positions, List.length_map, length_reads, List.length_range']
    -- at the positions the client comes to, a page is what the library calls one
    have hsame : ∀ i, Reached r i → Paging.items (positions r start end_) m.toNat
      i = page i := by
      rintro i ⟨hi, hlike⟩
      have hi' : (UInt32.ofNat i).toNat = i := by
        rw [UInt32.toNat_ofNat']
        omega
      rw [hpage, hi', matching_eq_drop start end_ hi hlike]
      rfl
    have hstart : Reached r 0 := ⟨Nat.zero_le _, hlike⟩
    have hnext : ∀ i, Reached r i → Paging.items (positions r start end_) m.toNat i ≠ [] →
        Reached r (i + (Paging.items (positions r start end_) m.toNat i).length) :=
      fun _ _ hne => reached_next hhealthy hne
    have hm' : 0 < m.toNat := by simpa [UInt32.lt_iff_toNat_lt] using hm
    obtain ⟨all, hall⟩ := Paging.exists_paged_items (positions r start end_) m.toNat 0
    have hpaged : Paging.Paged page 0 all := hall.congr hsame hnext hstart
    have hsingle' : single = (positions r start end_).reduceOption := by
      have hdrop := matching_eq_drop start end_ (Nat.zero_le _) hlike
      rw [Nat.sub_zero, List.drop_zero] at hdrop
      rw [hsingle, hdrop, List.take_of_length_le]
      have hle := List.reduceOption_length_le (positions r start end_)
      rw [UINT32_MAX]
      omega
    refine ⟨⟨all, hpaged⟩, fun all' hall' => ?_⟩
    rw [hall'.unique hpaged, hsingle', or_iff_right (by simp [hmatch])]
    exact ⟨by simpa using hall.sublist hm', hall.eq_iff hm'⟩
  · simp only [hmatch, if_false, Bool.false_eq_true] at hpage hsingle
    have hempty : Paging.Paged page 0 [] := .stop (hpage 0)
    refine ⟨⟨[], hempty⟩, fun all hall => ?_⟩
    rw [hall.unique hempty, hsingle]
    exact ⟨List.Sublist.refl _, iff_of_true rfl (Or.inl (by simpa using hmatch))⟩

/-- Pages of one record. -/
theorem paged_two :
    let page := fun i : ℕ => ((StorageScanner.mk [ascii "root"]).getData (twoRecords 1 5)
      (ascii "20240101/a.idx") 1 9 (UInt32.ofNat i) 1).data
    ∃ all, Paging.Paged page 0 all ∧
      all = ((StorageScanner.mk [ascii "root"]).getData (twoRecords 1 5)
        (ascii "20240101/a.idx") 1 9 0 (UInt32.ofNat UINT32_MAX)).data := by
  obtain ⟨⟨all, hall⟩, hiff⟩ := paged_iff ⟨[ascii "root"]⟩ (twoRecords 1 5)
    (ascii "20240101/a.idx")
    sampleIndex (by decide +kernel) 1 9 1 (by decide)
  have hpositions : positions (StreamReader.make (twoRecords 1 5) sampleIndex) 1 9 =
      [some ⟨1, ascii "x", 0⟩, some ⟨5, ascii "y", 0⟩] := by decide +kernel
  refine ⟨all, hall, (hiff all hall).2.mpr (Or.inr ?_)⟩
  rw [hpositions, Paging.Leading]
  decide +kernel

/-- The times are 1 and 5.  Paging through the range from 2 to 9 by single records gives the second
record twice. -/
theorem paging_repeats :
    let s : StorageScanner := ⟨[ascii "root"]⟩
    let page := fun i : ℕ => (s.getData (twoRecords 1 5) (ascii "20240101/a.idx") 2 9
      (UInt32.ofNat i) 1).data
    s.resolveIndexPath (twoRecords 1 5) (ascii "20240101/a.idx") = some sampleIndex ∧
    (StreamReader.make (twoRecords 1 5) sampleIndex).status_ = .kHealthy ∧
    Paging.Paged page 0 [⟨5, ascii "y", 0⟩, ⟨5, ascii "y", 0⟩] ∧
    (s.getData (twoRecords 1 5) (ascii "20240101/a.idx") 2 9 0 (UInt32.ofNat UINT32_MAX)).data =
      [⟨5, ascii "y", 0⟩] := by
  intro s page
  have hfirst : page 0 = [⟨5, ascii "y", 0⟩] := by decide +kernel
  have hsecond : page 1 = [⟨5, ascii "y", 0⟩] := by decide +kernel
  have hthird : page 2 = [] := by decide +kernel
  refine ⟨by decide +kernel, by decide +kernel, ?_, by decide +kernel⟩
  have hend : Paging.Paged page (1 + (page 1).length) [] := .stop (by rw [hsecond]; exact hthird)
  have hrest : Paging.Paged page 1 (page 1 ++ []) := .next (by simp [hsecond]) hend
  rw [hsecond] at hrest
  have hall : Paging.Paged page 0 (page 0 ++ _) :=
    .next (by simp [hfirst]) (show Paging.Paged page (0 + (page 0).length) _ by
      rw [hfirst]
      exact hrest)
  rwa [hfirst] at hall

/-! ## Errors -/

/-- What a position gives when the positions from `start` on were read before it. -/
def readAt (r : StreamReader) (start i : ℕ) : Option DataPiece :=
  ((r.reads (List.range' start (i - start))).2.read i).1

/-- The loop comes to a position. -/
def Visits (r : StreamReader) (start_time end_time : UInt64)
    (room start remaining i : ℕ) : Prop :=
  start ≤ i ∧ i < start + remaining ∧
    (r.matching start_time end_time start (i - start)).length < room

lemma readAt_start (r : StreamReader) (start : ℕ) : readAt r start start = (r.read start).1 := by
  rw [readAt, Nat.sub_self]
  rfl

/-- The calls for a position and the ones in front of it. -/
lemma reads_range'_succ (r : StreamReader) {start i : ℕ} (hi : start < i) :
    (r.reads (List.range' start (i - start))).2 =
      ((r.read start).2.reads (List.range' (start + 1) (i - (start + 1)))).2 := by
  obtain ⟨n, hn⟩ : ∃ n, i - start = n + 1 := ⟨i - start - 1, by omega⟩
  have hn' : i - (start + 1) = n := by omega
  rw [hn, hn', List.range'_succ, reads]

lemma readAt_succ (r : StreamReader) {start i : ℕ} (hi : start < i) :
    readAt r start i = readAt (r.read start).2 (start + 1) i := by
  rw [readAt, readAt, reads_range'_succ r hi]

/-- What a record leaves of the room in the response. -/
lemma visits_succ {r : StreamReader} {start_time end_time : UInt64} {room start remaining i : ℕ}
    (hi : start < i) : Visits r start_time end_time room start (remaining + 1) i ↔
      Visits (r.read start).2 start_time end_time
        (room - ((r.read start).1.toList.filter (within start_time end_time)).length) (start + 1)
        remaining i := by
  obtain ⟨n, hn⟩ : ∃ n, i - start = n + 1 := ⟨i - start - 1, by omega⟩
  have hn' : i - (start + 1) = n := by omega
  rw [Visits, Visits, hn, hn', matching_succ, List.length_append]
  omega

/-- When every position is readable, the text stays. -/
lemma collect_errors_of_readable (start_time end_time : UInt64) (max_size : ℕ) {remaining : ℕ} :
    ∀ {idx : ℕ} {r : StreamReader} {result : DataStreamsResponse},
      (∀ j, Visits r start_time end_time (max_size - result.data.length) idx remaining j →
        readAt r idx j ≠ none) →
      (collect start_time end_time max_size remaining idx r result).errors = result.errors := by
  induction remaining with
  | zero => exact fun _ => rfl
  | succ remaining ih =>
      intro idx r result hall
      by_cases hroom : result.data.length < max_size
      · obtain ⟨result', heq, hdata, herrors⟩ :=
          collect_succ start_time end_time remaining idx r hroom
        have hfirst : (r.read idx).1 ≠ none := by
          rw [← readAt_start]
          refine hall idx ⟨le_rfl, by omega, ?_⟩
          rw [Nat.sub_self, matching_zero, List.length_nil]
          omega
        rw [heq, ih, herrors, if_neg hfirst]
        intro j hj
        have hlt : idx < j := Nat.lt_of_succ_le hj.1
        rw [hdata, List.length_append, ← Nat.sub_sub] at hj
        rw [← readAt_succ r hlt]
        exact hall j ((visits_succ hlt).mpr hj)
      · rw [collect, if_neg hroom]

/-- **The last unreadable position decides about the text.** -/
lemma collect_errors_of_last (start_time end_time : UInt64) (max_size : ℕ) {remaining : ℕ} :
    ∀ {idx i : ℕ} {r : StreamReader} {result : DataStreamsResponse},
      Visits r start_time end_time (max_size - result.data.length) idx remaining i →
      readAt r idx i = none →
      (∀ j, i < j → Visits r start_time end_time (max_size - result.data.length) idx
        remaining j → readAt r idx j ≠ none) →
      (collect start_time end_time max_size remaining idx r result).errors =
        (((r.reads (List.range' idx (i - idx))).2.read i).2).last_error := by
  induction remaining with
  | zero =>
      rintro idx i r result ⟨hle, hlt, -⟩
      omega
  | succ remaining ih =>
      intro idx i r result hi hnone hlast
      have hroom : result.data.length < max_size := by
        have := hi.2.2
        omega
      obtain ⟨result', heq, hdata, herrors⟩ :=
        collect_succ start_time end_time remaining idx r hroom
      rw [heq]
      rcases hi.1.eq_or_lt with rfl | hlt
      · -- nothing fails behind it
        rw [collect_errors_of_readable, herrors]
        · rw [readAt_start] at hnone
          rw [if_pos hnone, Nat.sub_self]
          rfl
        · intro j hj
          have hlt : idx < j := Nat.lt_of_succ_le hj.1
          rw [hdata, List.length_append, ← Nat.sub_sub] at hj
          rw [← readAt_succ r hlt]
          exact hlast j hlt ((visits_succ hlt).mpr hj)
      · rw [reads_range'_succ r hlt]
        refine ih ?_ ?_ fun j hij hj => ?_
        · rw [hdata, List.length_append, ← Nat.sub_sub]
          exact (visits_succ hlt).mp hi
        · rwa [← readAt_succ r hlt]
        · have hlt' : idx < j := hlt.trans hij
          rw [hdata, List.length_append, ← Nat.sub_sub] at hj
          rw [← readAt_succ r hlt']
          exact hlast j hij ((visits_succ hlt').mpr hj)

/-! ### What the data file has to say -/

section Text

variable {h : LogFileHeader} {I : Bytes} {data : Option DataFileReader}

/-- **An entry that refers to no record** leaves the data file alone. -/
lemma lookUp_silent {i : ℕ} (hsilent : ¬ Refers h I i) : (lookUp h I data i).2 = data := by
  by_cases hentry : h.entryCount I ≤ i ∨ h.file_type_ ≠ kIndexFile ∨ h.entryTime I i = 0
  · simp only [lookUp, hentry, if_true]
  · have ho : h.entryOffset I i = 0 := by
      by_contra ho
      exact hsilent ⟨fun htime => hentry (Or.inr (Or.inr htime)), ho⟩
    by_cases h0 : h.record_size_ = 0
    · cases data with
      | none => simp [lookUp, hentry, h0]
      | some D => simp [lookUp, hentry, h0, ho]
    · simp [lookUp, hentry, h0]

lemma lookUp_pair (hpair : data = none ↔ h.record_size_ ≠ 0) (i : ℕ) :
    (lookUp h I data i).2 = none ↔ h.record_size_ ≠ 0 := by
  rw [← hpair]
  have hworn := lookUp_worn h I data i
  generalize (lookUp h I data i).2 = data' at hworn
  cases hworn with
  | none => exact iff_of_true rfl rfl
  | some _ => exact iff_of_false (Option.some_ne_none _) (Option.some_ne_none _)

variable (htype : h.file_type_ = kIndexFile) (hpair : data = none ↔ h.record_size_ ≠ 0)

include htype hpair

/-- **An entry that refers to a record** leaves a text exactly when it is unreadable. -/
lemma lookUp_refers {i : ℕ} (hi : i < h.entryCount I) (hrefers : Refers h I i) :
    dataText (lookUp h I data i).2 = [] ↔ (lookUp h I data i).1 ≠ none := by
  have hentry : ¬ (h.entryCount I ≤ i ∨ h.file_type_ ≠ kIndexFile ∨
    h.entryTime I i = 0) := by
    rintro (hge | hother | htime)
    · omega
    · exact hother htype
    · exact hrefers.1 htime
  cases data with
  | none =>
      have h0 := hpair.mp rfl
      simp only [lookUp, hentry, h0, if_false, if_true, ne_eq, not_false_eq_true]
      exact iff_of_true rfl (Option.some_ne_none _)
  | some D =>
      have h0 : h.record_size_ = 0 := by
        by_contra h0
        exact Option.some_ne_none D (hpair.mpr h0)
      have hends := DataFileReader.read_ends D (h.entryOffset I i)
      simp only [lookUp, hentry, h0, hrefers.2, if_false, ne_eq, not_true_eq_false]
      cases hpiece : (D.read (h.entryOffset I i)).2.1 with
      | none =>
          refine iff_of_false (fun htext => ?_) (by simp)
          exact dataError_ne_nil (hends.missing hpiece).2 htext
      | some piece =>
          refine iff_of_true ?_ (by simp)
          simp [dataText, dataError, (hends.found (by simp [hpiece])).1]

/-- The text the data file still has when the loop comes to a position: that of the last record it
looked up, or what a new reader has. -/
structure Settled (r : StreamReader) (h : LogFileHeader) (I : Bytes) (start i : ℕ) : Prop where
  last : ∀ j, start ≤ j → j < i → Refers h I j →
    (∀ k, j < k → k < i → ¬ Refers h I k) →
    readAt r start j ≠ none
  first : (∀ j, start ≤ j → j < i → ¬ Refers h I j) → dataText r.data_ = []

/-- **There is no text left exactly when the last record looked up was found.** -/
lemma settled_iff {r : StreamReader} (hr : Holding h I data r) {start n : ℕ}
    (hn : start + n ≤ h.entryCount I) :
    ∃ data', Holding h I data' (r.reads (List.range' start n)).2 ∧
      (data' = none ↔ h.record_size_ ≠ 0) ∧
      (dataText data' = [] ↔ Settled r h I start (start + n)) := by
  induction n with
  | zero =>
      obtain ⟨index, rfl, hopens⟩ := hr
      refine ⟨data, ⟨index, rfl, hopens⟩, hpair, fun htext =>
        ⟨fun j _ _ => by omega, fun _ => htext⟩, fun hsettled =>
          hsettled.first fun j _ _ => by omega⟩
  | succ n ih =>
      obtain ⟨data', hr', hpair', hiff⟩ := ih (by omega)
      obtain ⟨hpiece, hnext, -⟩ := read_holding hr' (start + n)
      have hstate : (r.reads (List.range' start (n + 1))).2 =
          ((r.reads (List.range' start n)).2.read (start + n)).2 := by
        rw [← List.range'_append_1, reads_append, List.range'_one]
        rfl
      have hreadAt : readAt r start (start + n) = (lookUp h I data' (start + n)).1 := by
        rw [readAt, Nat.add_sub_cancel_left, hpiece]
      refine ⟨(lookUp h I data' (start + n)).2, by rwa [hstate], lookUp_pair hpair' _, ?_⟩
      by_cases hrefers : Refers h I (start + n)
      · rw [lookUp_refers htype hpair' (by omega) hrefers, ← hreadAt]
        constructor
        · intro hfound
          refine ⟨fun j hj hlt hrefers' hbetween => ?_, fun hnone => ?_⟩
          · have heq : j = start + n := by
              by_contra hne
              exact hbetween (start + n) (by omega) (by omega) hrefers
            rwa [heq]
          · exact absurd hrefers (hnone _ (by omega) (by omega))
        · intro hsettled
          exact hsettled.last _ (by omega) (by omega) hrefers fun k _ _ => by omega
      · rw [lookUp_silent hrefers, hiff]
        constructor
        · intro hsettled
          refine ⟨fun j hj hlt hrefers' hbetween => ?_, fun hnone => ?_⟩
          · have hne : j ≠ start + n := fun heq => hrefers (heq ▸ hrefers')
            exact hsettled.last j hj (by omega) hrefers' fun k hk hk' => hbetween k hk (by omega)
          · exact hsettled.first fun j hj hlt => hnone j hj (by omega)
        · intro hsettled
          refine ⟨fun j hj hlt hrefers' hbetween => ?_, fun hnone => ?_⟩
          · refine hsettled.last j hj (by omega) hrefers' fun k hk hk' => ?_
            rcases Nat.lt_succ_iff_lt_or_eq.mp hk' with hk' | rfl
            · exact hbetween k hk hk'
            · exact hrefers
          · refine hsettled.first fun j hj hlt => ?_
            rcases Nat.lt_succ_iff_lt_or_eq.mp hlt with hlt | rfl
            · exact hnone j hj hlt
            · exact hrefers

end Text

/-- `getData` comes to a position. -/
def Scanned (r : StreamReader) (start_time end_time : UInt64)
    (start_idx max_size : UInt32) (i : ℕ) : Prop :=
  r.matchTime start_time end_time = true ∧
    Visits r start_time end_time max_size.toNat start_idx.toNat
      (r.records_cnt.getD 0 - start_idx.toNat) i

/-- The last unreadable position `getData` comes to has no time or no offset, and the last record
looked up before it was found. -/
def Unreported (r : StreamReader) (h : LogFileHeader) (I : Bytes) (start_time end_time : UInt64)
    (start_idx max_size : UInt32) : Prop :=
  ∃ i, Scanned r start_time end_time start_idx max_size i ∧
    readAt r start_idx.toNat i = none ∧
    (∀ j, i < j → Scanned r start_time end_time start_idx max_size j →
      readAt r start_idx.toNat j ≠ none) ∧
    ¬ Refers h I i ∧ Settled r h I start_idx.toNat i

/-- A property that holds somewhere below a bound holds at a last place. -/
lemma exists_last {P : ℕ → Prop} {n i : ℕ} (hbound : ∀ j, P j → j ≤ n) (hi : P i) :
    ∃ j, P j ∧ ∀ k, j < k → ¬ P k := by
  classical
  refine ⟨Nat.findGreatest P n, Nat.findGreatest_spec (hbound i hi) hi, fun k hk hPk => ?_⟩
  exact Nat.findGreatest_is_greatest hk (hbound k hPk) hPk

/-- **An unreadable position is reported exactly when a text is left at the last one.** -/
theorem unreadable_reported_iff (s : StorageScanner) (v : View) (file : Bytes)
    (p : Path) (I : Bytes) (h : LogFileHeader) (hres : s.resolveIndexPath v file = some p)
    (hlook : v.look p = some (.file I)) (hindex : IndexFileReader.IsIndex h I)
    (start_time end_time : UInt64) (start_idx max_size : UInt32) :
    let r := StreamReader.make v p
    ((∃ i, Scanned r start_time end_time start_idx max_size i ∧
        readAt r start_idx.toNat i = none) →
      (s.getData v file start_time end_time start_idx max_size).errors ≠ []) ↔
    ¬ Unreported r h I start_time end_time start_idx max_size := by
  intro r
  obtain ⟨hhas, h49, -, htype⟩ := hindex
  by_cases hmatch : r.matchTime start_time end_time = true
  · have hhealthy : r.status_ = .kHealthy := by
      simp only [StreamReader.matchTime, Bool.and_eq_true, decide_eq_true_eq] at hmatch
      exact hmatch.1
    obtain ⟨h', I', data, hlook', hh', hold, -, hpair, -⟩ := make_holding hhealthy
    obtain rfl : I = I' := Seen.file.inj (Option.some.inj (hlook.symm.trans hlook'))
    obtain ⟨-, hne, -⟩ := FileReader.make_of_some hlook hh'
    obtain rfl : h = h' := Option.some.inj
      ((FileReader.make_of_hasHeader hlook hhas hne).symm.trans hh')
    have hcount : r.records_cnt.getD 0 = h.entryCount I := by
      obtain ⟨index, hr, hopens⟩ := hold
      rw [show r = _ from hr, StreamReader.records_cnt, Option.map_some, Option.getD_some,
        hopens.count]
    -- the text of the response, seen from the last unreadable position
    have htext : ∀ i, Scanned r start_time end_time start_idx max_size i →
        readAt r start_idx.toNat i = none →
        (∀ j, i < j → Scanned r start_time end_time start_idx max_size j →
          readAt r start_idx.toNat j ≠ none) →
        ((s.getData v file start_time end_time start_idx max_size).errors = [] ↔
          ¬ Refers h I i ∧ Settled r h I start_idx.toNat i) := by
      rintro i ⟨-, hi⟩ hnone hlast
      obtain ⟨hle, hlt, -⟩ := id hi
      have hi' : i < h.entryCount I := by omega
      have hadd : start_idx.toNat + (i - start_idx.toNat) = i := by omega
      obtain ⟨data', hold', hpair', hsettled⟩ := settled_iff htype hpair hold
        (show start_idx.toNat + (i - start_idx.toNat) ≤ h.entryCount I by omega)
      obtain ⟨hpiece, -, herror⟩ := read_holding hold' i
      rw [hadd] at hsettled
      have hcollect : (collect start_time end_time max_size.toNat
          (r.records_cnt.getD 0 - start_idx.toNat) start_idx.toNat r {}).errors = _ :=
        collect_errors_of_last start_time end_time max_size.toNat hi hnone fun j hij hj =>
          hlast j hij ⟨hmatch, hj⟩
      have hget : s.getData v file start_time end_time start_idx max_size =
          collect start_time end_time max_size.toNat (r.records_cnt.getD 0 - start_idx.toNat)
            start_idx.toNat r {} := by
        have hin : ¬ r.records_cnt.getD 0 ≤ start_idx.toNat := by omega
        rw [getData_of_some hres, respond, if_neg (not_not.mpr hmatch), if_neg hin]
      rw [readAt, hpiece] at hnone
      rw [hget, hcollect, herror hi' htype]
      by_cases hrefers : Refers h I i
      · rw [lookUp_refers htype hpair' hi' hrefers]
        exact iff_of_false (not_not.mpr hnone) fun hsilent => hsilent.1 hrefers
      · rw [lookUp_silent hrefers, hsettled, and_iff_right hrefers]
    constructor
    · rintro hall ⟨i, hi, hnone, hlast, hsilent⟩
      exact hall ⟨i, hi, hnone⟩ ((htext i hi hnone hlast).mpr hsilent)
    · rintro hno ⟨i₀, hi₀⟩ herrors
      have hbound : ∀ j, Scanned r start_time end_time start_idx max_size j ∧
          readAt r start_idx.toNat j = none → j ≤ start_idx.toNat + h.entryCount I := by
        rintro j ⟨⟨-, -, hlt, -⟩, -⟩
        omega
      obtain ⟨i, ⟨hi, hnone⟩, hlast⟩ := exists_last hbound hi₀
      have hlast' : ∀ j, i < j → Scanned r start_time end_time start_idx max_size j →
          readAt r start_idx.toNat j ≠ none := fun j hij hj hnone' => hlast j hij ⟨hj, hnone'⟩
      exact hno ⟨i, hi, hnone, hlast', (htext i hi hnone hlast').mp herrors⟩
  · refine iff_of_true (fun hsome => ?_) fun hunreported => ?_
    · obtain ⟨i, hi, -⟩ := hsome
      exact absurd hi.1 hmatch
    · obtain ⟨i, hi, -⟩ := hunreported
      exact absurd hi.1 hmatch

/-- The times are 0 and 5.  The first record cannot be read, and the response has no text. -/
theorem zero_time_unreported :
    let s : StorageScanner := ⟨[ascii "root"]⟩
    let r := StreamReader.make (twoRecords 0 5) sampleIndex
    s.resolveIndexPath (twoRecords 0 5) (ascii "20240101/a.idx") = some sampleIndex ∧
    r.status_ = .kHealthy ∧ r.matchTime 0 9 = true ∧ r.records_cnt = some 2 ∧
    (r.read 0).1 = none ∧
    s.getData (twoRecords 0 5) (ascii "20240101/a.idx") 0 9 0 9 =
      { data := [⟨5, ascii "y", 0⟩], errors := [] } := by
  decide +kernel

/-- A time of zero is no record and no error. -/
theorem unreported_zero_time :
    Unreported (StreamReader.make (twoRecords 0 5) sampleIndex) sampleHeader (sampleBytes 0 5) 0 9 0
      9 := by
  have hlook : (twoRecords 0 5).look sampleIndex = some (.file (sampleBytes 0 5)) := by
    decide +kernel
  have hhas : HasHeader (sampleBytes 0 5) sampleHeader := hasHeader_of_slice (by decide +kernel)
  have hiff := unreadable_reported_iff ⟨[ascii "root"]⟩ (twoRecords 0 5)
    (ascii "20240101/a.idx")
    sampleIndex (sampleBytes 0 5) sampleHeader (by decide +kernel) hlook
    ⟨hhas, by decide +kernel, by decide +kernel, rfl⟩ 0 9 0 9
  by_contra hreported
  refine hiff.mpr hreported ⟨0, ⟨by decide +kernel, ?_⟩, by decide +kernel⟩
    (by decide +kernel)
  exact ⟨by decide +kernel, by decide +kernel, by decide +kernel⟩

end StorageScanner

end Tracebox
