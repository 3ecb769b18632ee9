import Tracebox.DataTypes
import Tracebox.Lib.Buckets

/-!
# `StreamsCombiner`

The client reads its streams one by one, and the combiner puts their records into one bucket for
each second.  `save` hands the buckets to the writer in the order of the seconds, each as it was
filled: nothing calls `OneSecondData::sort`.

The second of a timestamp is computed in floating point, `time_ns / 1E9`, and is a parameter here.

* `kept` — what `addRecords` takes from a list of records.
* `addAll_stable` — **what is saved is a stable sort, by second, of what was taken**.
* `save_sorted_iff` — when the saved records are in the order of their timestamps.
* `combines_iff` — when all records in range, and no others, are saved under their streams.
-/

namespace Tracebox

open Bytes

/-! ## The code -/

/-- `StreamsCombiner`: the records of a range of seconds, and the streams they came from. -/
structure StreamsCombiner where
  /-- an `OneSecondData` is the list `data_` -/
  seconds_ : Buckets ℕ DataPiece
  first_second_ : ℕ
  last_second_ : ℕ
  /-- the map in the order in which the names were added -/
  indices_ : List (Bytes × ℤ)

namespace StreamsCombiner

section Code

variable (second : UInt64 → ℕ)

/-- The constructor: no second has records yet, and no stream is known. -/
def make (start_time end_time : UInt64) : StreamsCombiner where
  seconds_ := .empty
  first_second_ := second start_time
  last_second_ := second end_time
  indices_ := []

/-- The second `0` stands for no second. -/
def storeData (c : StreamsCombiner) (second : ℕ) (data : List DataPiece) : StreamsCombiner :=
  if second = 0 ∨ data = [] then c else { c with seconds_ := c.seconds_.add second data }

/-- The copy of a record that is stored. -/
def piece (index : ℤ) (it : DataPiece) : DataPiece where
  time_ns := it.time_ns
  data := it.data
  stream_idx := UInt32.ofInt index

/-- The loop of `addRecords`. -/
def addLoop (index : ℤ) : List DataPiece → List DataPiece → ℕ → StreamsCombiner →
    StreamsCombiner
  | [], tmp, last, c => c.storeData last tmp
  | it :: data, tmp, last, c =>
      if second it.time_ns < c.first_second_ then addLoop index data tmp last c
      else if c.last_second_ < second it.time_ns then c.storeData last tmp
      else if second it.time_ns ≠ last then
        addLoop index data [piece index it] (second it.time_ns) (c.storeData last tmp)
      else addLoop index data (tmp ++ [piece index it]) last c

/-- The index of a stream, which is entered when it is not there. -/
def enter (c : StreamsCombiner) (stream : Bytes) : ℤ × StreamsCombiner :=
  match c.indices_.lookup stream with
  | some index => (index, c)
  | none => (toInt c.indices_.length,
      { c with indices_ := c.indices_ ++ [(stream, toInt c.indices_.length)] })

/-- `addRecords`: the stream gets an index unless it has one, and the loop goes through its
records. -/
def addRecords (c : StreamsCombiner) (stream : Bytes) (data : List DataPiece) : StreamsCombiner :=
  let r := c.enter stream
  addLoop second r.1 data [] 0 r.2

/-- `streams`: the names with their indices. -/
def streams (c : StreamsCombiner) : List (Bytes × ℤ) := c.indices_

/-- The batches that the writer gets, and the number of records. -/
def save (c : StreamsCombiner) : List (List DataPiece) × ℕ :=
  (c.seconds_.entries.map Prod.snd, (c.seconds_.entries.map fun e => e.2.length).sum)

/-- A sequence of calls. -/
def addAll (c : StreamsCombiner) (calls : List (Bytes × List DataPiece)) : StreamsCombiner :=
  calls.foldl (fun c call => c.addRecords second call.1 call.2) c

end Code

/-! ## What is taken -/

section Taken

variable (second : UInt64 → ℕ) (first last : ℕ)

/-- The second of the record is one of those that the combiner keeps. -/
def InRange (it : DataPiece) : Prop := first ≤ second it.time_ns ∧ second it.time_ns ≤ last

/-- The loop of `addRecords` stops here. -/
def Late (it : DataPiece) : Prop := first ≤ second it.time_ns ∧ last < second it.time_ns

instance : DecidablePred (InRange second first last) := fun _ =>
  inferInstanceAs (Decidable (_ ∧ _))

instance : DecidablePred (Late second first last) := fun _ => inferInstanceAs (Decidable (_ ∧ _))

/-- The records that one call of `addRecords` stores. -/
def kept (data : List DataPiece) : List DataPiece :=
  (data.takeWhile fun it => ¬ Late second first last it).filter fun it =>
    InRange second first last it ∧ second it.time_ns ≠ 0

variable {second first last} {it : DataPiece} {data : List DataPiece}

lemma kept_of_early (h : second it.time_ns < first) :
    kept second first last (it :: data) = kept second first last data := by
  have hlate : ¬ Late second first last it := fun hlate => absurd hlate.1 (not_le.mpr h)
  have hrange : ¬ InRange second first last it := fun hrange => absurd hrange.1 (not_le.mpr h)
  simp [kept, hlate, hrange]

lemma kept_of_late (h : Late second first last it) : kept second first last (it :: data) = [] := by
  simp [kept, h]

lemma kept_of_inRange (h : InRange second first last it) : kept second first last (it :: data) =
    (if second it.time_ns = 0 then [] else [it]) ++ kept second first last data := by
  have hlate : ¬ Late second first last it := fun hlate => absurd h.2 (not_le.mpr hlate.2)
  by_cases hzero : second it.time_ns = 0
  · simp [kept, hlate, h, hzero]
  · simp [kept, hlate, h, hzero]

lemma kept_sublist (data : List DataPiece) :
    (kept second first last data).Sublist (data.filter (InRange second first last ·)) := by
  refine ((List.takeWhile_sublist _).filter _).trans (List.monotone_filter_right data ?_)
  intro it hit
  simp only [decide_eq_true_eq] at hit ⊢
  exact hit.1

/-- **When everything in range is taken**: no record in range stands behind a late one, or in the
second that stands for none. -/
lemma kept_eq_iff : kept second first last data = data.filter (InRange second first last ·) ↔
    (∀ it ∈ data, InRange second first last it → second it.time_ns ≠ 0) ∧
      data.Pairwise fun a b => Late second first last a → ¬ InRange second first last b := by
  induction data with
  | nil => simp [kept]
  | cons it data ih =>
      rw [List.forall_mem_cons, List.pairwise_cons]
      by_cases hrange : InRange second first last it
      · have hlate : ¬ Late second first last it := fun hlate =>
          absurd hrange.2 (not_le.mpr hlate.2)
        rw [kept_of_inRange hrange, List.filter_cons_of_pos (by simpa using hrange)]
        by_cases hzero : second it.time_ns = 0
        · -- the records behind it cannot make up for the one that is lost
          rw [if_pos hzero, List.nil_append]
          refine ⟨fun h => ?_, fun h => absurd hzero (h.1.1 hrange)⟩
          have hle : (kept second first last data).length ≤
              (data.filter (InRange second first last ·)).length := (kept_sublist data).length_le
          have heq := congrArg List.length h
          rw [List.length_cons] at heq
          omega
        · rw [if_neg hzero, List.singleton_append, List.cons.injEq, eq_self, true_and, ih]
          simp [hrange, hzero, hlate]
      · rw [List.filter_cons_of_neg (by simpa using hrange)]
        by_cases hlate : Late second first last it
        · rw [kept_of_late hlate, eq_comm, List.filter_eq_nil_iff]
          constructor
          · intro hnone
            have hnone : ∀ b ∈ data, ¬ InRange second first last b := by simpa using hnone
            exact ⟨⟨fun h => absurd h hrange, fun b hb h => absurd h (hnone b hb)⟩,
              fun b hb _ => hnone b hb,
              List.pairwise_of_forall_mem_list fun _ _ b hb _ => hnone b hb⟩
          · rintro ⟨-, hbehind, -⟩ b hb
            simpa using hbehind b hb hlate
        · have hearly : second it.time_ns < first := by
            by_contra hge
            by_cases hle : second it.time_ns ≤ last
            · exact hrange ⟨not_lt.mp hge, hle⟩
            · exact hlate ⟨not_lt.mp hge, not_le.mp hle⟩
          rw [kept_of_early hearly, ih]
          simp [hrange, hlate]

end Taken

/-! ## What is stored -/

section Stored

variable {second : UInt64 → ℕ} {c : StreamsCombiner} {xs : List DataPiece}

/-- The buckets are the records `xs`, sorted by their seconds. -/
structure Sorts (second : UInt64 → ℕ) (c : StreamsCombiner) (xs : List DataPiece) : Prop where
  filed : c.seconds_.Filed fun it => second it.time_ns
  sort : IsStableSort (fun it => second it.time_ns) xs c.seconds_.flatten

/-- What `storeData` stores of the records of a second. -/
def stored (last : ℕ) (tmp : List DataPiece) : List DataPiece := if last = 0 then [] else tmp

lemma stored_append (last : ℕ) (tmp tmp' : List DataPiece) :
    stored last (tmp ++ tmp') = stored last tmp ++ stored last tmp' := by
  rw [stored, stored, stored]
  split <;> rfl

/-- A single record is stored when it is taken. -/
lemma stored_single (index : ℤ) (it : DataPiece) : stored (second it.time_ns) [piece index it] =
    (if second it.time_ns = 0 then [] else [it]).map (piece index) := by
  rw [stored]
  split <;> rfl

lemma storeData_frame (c : StreamsCombiner) (last : ℕ) (tmp : List DataPiece) :
    (c.storeData last tmp).first_second_ = c.first_second_ ∧
      (c.storeData last tmp).last_second_ = c.last_second_ ∧
      (c.storeData last tmp).indices_ = c.indices_ := by
  rw [storeData]
  split <;> exact ⟨rfl, rfl, rfl⟩

lemma Sorts.storeData (h : Sorts second c xs) {last : ℕ} {tmp : List DataPiece}
    (htmp : ∀ it ∈ tmp, second it.time_ns = last) :
    Sorts second (c.storeData last tmp) (xs ++ stored last tmp) := by
  rw [StreamsCombiner.storeData, stored]
  by_cases hzero : last = 0
  · rw [if_pos (.inl hzero), if_pos hzero, List.append_nil]
    exact h
  rw [if_neg hzero]
  by_cases hnil : tmp = []
  · rw [if_pos (.inr hnil), hnil, List.append_nil]
    exact h
  · rw [if_neg (not_or.mpr ⟨hzero, hnil⟩)]
    exact ⟨h.filed.add htmp, h.sort.add h.filed htmp⟩

/-- **The loop of `addRecords`** stores the records of the run that it is in, and what it takes of
those to come. -/
lemma Sorts.addLoop (h : Sorts second c xs) (index : ℤ) (data : List DataPiece) {last : ℕ}
    {tmp : List DataPiece} (htmp : ∀ it ∈ tmp, second it.time_ns = last) :
    Sorts second (addLoop second index data tmp last c) (xs ++ stored last tmp ++
        (kept second c.first_second_ c.last_second_ data).map (piece index)) ∧
      (addLoop second index data tmp last c).first_second_ = c.first_second_ ∧
      (addLoop second index data tmp last c).last_second_ = c.last_second_ ∧
      (addLoop second index data tmp last c).indices_ = c.indices_ := by
  induction data generalizing c xs last tmp with
  | nil =>
      rw [StreamsCombiner.addLoop, kept, List.takeWhile_nil, List.filter_nil, List.map_nil,
        List.append_nil]
      exact ⟨h.storeData htmp, storeData_frame c last tmp⟩
  | cons it data ih =>
      rw [StreamsCombiner.addLoop]
      split_ifs with hearly hlate hnew
      · rw [kept_of_early hearly]
        exact ih h htmp
      · rw [kept_of_late ⟨not_lt.mp hearly, hlate⟩, List.map_nil, List.append_nil]
        exact ⟨h.storeData htmp, storeData_frame c last tmp⟩
      · -- the record begins a run of its own
        obtain ⟨hfirst, hlast, hindices⟩ := storeData_frame c last tmp
        have hone : ∀ d ∈ [piece index it], second d.time_ns = second it.time_ns := by
          intro d hd
          rw [List.mem_singleton.mp hd]
          rfl
        have hrest := ih (h.storeData htmp) hone
        rw [hfirst, hlast, hindices] at hrest
        rw [kept_of_inRange ⟨not_lt.mp hearly, not_lt.mp hlate⟩, List.map_append,
          ← stored_single, ← List.append_assoc]
        exact hrest
      · -- the record goes on with the run
        have hnew : second it.time_ns = last := not_not.mp hnew
        have hmore : ∀ d ∈ tmp ++ [piece index it], second d.time_ns = last := by
          intro d hd
          rcases List.mem_append.mp hd with hd | hd
          · exact htmp d hd
          · rw [List.mem_singleton.mp hd]
            exact hnew
        have hrest := ih h hmore
        rw [stored_append, ← List.append_assoc, ← hnew, stored_single, hnew] at hrest
        rw [kept_of_inRange ⟨not_lt.mp hearly, not_lt.mp hlate⟩, List.map_append, hnew,
          ← List.append_assoc]
        exact hrest

end Stored

/-! ## Streams -/

section Streams

variable {second : UInt64 → ℕ} {c : StreamsCombiner} {xs : List DataPiece}

/-- Every name has its own entry, and the indices are counted up. -/
structure Indexed (indices : List (Bytes × ℤ)) : Prop where
  names : (indices.map Prod.fst).Nodup
  counted : indices.map Prod.snd = (List.range indices.length).map fun i : ℕ => toInt i

lemma lookup_of_prefix {l l' : List (Bytes × ℤ)} (h : l <+: l') {name : Bytes} {index : ℤ}
    (hl : l.lookup name = some index) : l'.lookup name = some index := by
  obtain ⟨t, rfl⟩ := h
  rw [List.lookup_append, hl]
  rfl

/-- **What `enter` does**: the stream has an index, and those that have one keep it. -/
lemma enter_spec (hc : Indexed c.indices_) (stream : Bytes) :
    (c.enter stream).2.indices_.lookup stream = some (c.enter stream).1 ∧
      c.indices_ <+: (c.enter stream).2.indices_ ∧ Indexed (c.enter stream).2.indices_ ∧
      (∀ name, name ∈ (c.enter stream).2.indices_.map Prod.fst ↔
        name ∈ c.indices_.map Prod.fst ∨ name = stream) ∧
      (c.enter stream).2.seconds_ = c.seconds_ ∧
      (c.enter stream).2.first_second_ = c.first_second_ ∧
      (c.enter stream).2.last_second_ = c.last_second_ := by
  rw [enter]
  cases hlook : c.indices_.lookup stream with
  | some index =>
      refine ⟨hlook, List.prefix_refl _, hc, fun name => ⟨.inl, ?_⟩, rfl, rfl, rfl⟩
      rintro (h | rfl)
      · exact h
      · obtain ⟨l₁, l₂, heq, -⟩ := List.lookup_eq_some_iff.mp hlook
        simp [heq]
  | none =>
      have hnew : stream ∉ c.indices_.map Prod.fst := by
        intro hmem
        obtain ⟨e, he, heq⟩ := List.mem_map.mp hmem
        have := List.lookup_eq_none_iff.mp hlook e he
        simp [heq] at this
      refine ⟨?_, List.prefix_append _ _, ⟨?_, ?_⟩, fun name => by simp, rfl, rfl, rfl⟩
      · rw [List.lookup_append, hlook, Option.none_or, List.lookup_cons_self]
      · rw [List.map_append, List.map_singleton]
        exact List.Nodup.append hc.names (List.nodup_singleton _) (by simpa using hnew)
      · rw [List.map_append, hc.counted, List.length_append, List.length_singleton,
          List.range_succ, List.map_append, List.map_singleton, List.map_singleton]

/-- The index of a stream. -/
def indexOf (c : StreamsCombiner) (stream : Bytes) : ℤ := (c.indices_.lookup stream).getD 0

/-- **One call** stores what it takes, under the index of its stream. -/
lemma Sorts.addRecords (h : Sorts second c xs) (hc : Indexed c.indices_) (stream : Bytes)
    (data : List DataPiece) :
    Sorts second (c.addRecords second stream data)
        (xs ++ (kept second c.first_second_ c.last_second_ data).map
          (piece ((c.addRecords second stream data).indexOf stream))) ∧
      (c.addRecords second stream data).first_second_ = c.first_second_ ∧
      (c.addRecords second stream data).last_second_ = c.last_second_ ∧
      (c.addRecords second stream data).indices_ = (c.enter stream).2.indices_ := by
  obtain ⟨hindex, -, -, -, hseconds, hfirst, hlast⟩ := enter_spec hc stream
  have hentered : Sorts second (c.enter stream).2 xs := by
    obtain ⟨hfiled, hsort⟩ := h
    rw [← hseconds] at hfiled hsort
    exact ⟨hfiled, hsort⟩
  have hnone : ∀ it ∈ ([] : List DataPiece), second it.time_ns = 0 :=
    fun _ hit => absurd hit List.not_mem_nil
  obtain ⟨hsorts, hfirst', hlast', hindices⟩ :=
    hentered.addLoop (c.enter stream).1 data hnone
  rw [hfirst] at hsorts hfirst'
  rw [hlast] at hsorts hlast'
  have hown : (c.addRecords second stream data).indexOf stream = (c.enter stream).1 := by
    rw [indexOf, StreamsCombiner.addRecords, hindices, hindex]
    rfl
  rw [stored, if_pos rfl, List.append_nil] at hsorts
  rw [hown]
  exact ⟨hsorts, hfirst', hlast', hindices⟩

/-- **What is stored** by a sequence of calls: a stable sort of what the calls take. -/
lemma addAll_sorts (h : Sorts second c xs) (hc : Indexed c.indices_)
    (calls : List (Bytes × List DataPiece)) :
    Sorts second (c.addAll second calls) (xs ++ calls.flatMap fun call =>
        (kept second c.first_second_ c.last_second_ call.2).map
          (piece ((c.addAll second calls).indexOf call.1))) ∧
      c.indices_ <+: (c.addAll second calls).indices_ ∧
        Indexed (c.addAll second calls).indices_ ∧
      (∀ call ∈ calls, ((c.addAll second calls).indices_.lookup call.1).isSome = true) ∧
      ∀ name, name ∈ (c.addAll second calls).indices_.map Prod.fst ↔
        name ∈ c.indices_.map Prod.fst ∨ name ∈ calls.map Prod.fst := by
  induction calls generalizing c xs with
  | nil => exact ⟨by simpa [addAll] using h, List.prefix_refl _, hc, by simp, by simp [addAll]⟩
  | cons call calls ih =>
      obtain ⟨hone, hfirst, hlast, hindices⟩ := h.addRecords hc call.1 call.2
      obtain ⟨hlook, hprefix, hentered, hnames, -⟩ := enter_spec hc call.1
      rw [← hindices] at hlook hprefix hentered hnames
      obtain ⟨hall, hprefix', hindexed, hknown, hnames'⟩ := ih hone hentered
      have hlook' := lookup_of_prefix hprefix' hlook
      have hsame : ((c.addRecords second call.1 call.2).addAll second calls).indexOf call.1 =
          (c.addRecords second call.1 call.2).indexOf call.1 := by
        rw [indexOf, indexOf, hlook, hlook']
      rw [hfirst, hlast, ← hsame, List.append_assoc] at hall
      refine ⟨?_, hprefix.trans hprefix', hindexed, ?_, fun name => ?_⟩
      · rw [List.flatMap_cons]
        exact hall
      · rw [List.forall_mem_cons]
        refine ⟨?_, hknown⟩
        change (((c.addRecords second call.1 call.2).addAll second calls).indices_.lookup
          call.1).isSome = true
        rw [hlook']
        rfl
      · rw [List.map_cons, List.mem_cons]
        refine (hnames' name).trans ?_
        rw [hnames, or_assoc]

/-- A new combiner is sorted. -/
lemma sorts_make (second : UInt64 → ℕ) (start_time end_time : UInt64) :
    Sorts second (make second start_time end_time) [] := ⟨Buckets.filed_empty, .nil⟩

lemma indexed_nil : Indexed [] := ⟨List.nodup_nil, rfl⟩

end Streams

/-! ## The order of the output -/

section Order

variable {second : UInt64 → ℕ} {start_time end_time : UInt64}

/-- **What is saved** by a sequence of calls on a new combiner: a stable sort of what the calls
take. -/
lemma addAll_stable (calls : List (Bytes × List DataPiece)) :
    IsStableSort (fun it => second it.time_ns)
      (calls.flatMap fun call => (kept second (second start_time) (second end_time) call.2).map
        (piece (((make second start_time end_time).addAll second calls).indexOf call.1)))
      ((make second start_time end_time).addAll second calls).save.1.flatten :=
  (addAll_sorts (sorts_make second start_time end_time) indexed_nil calls).1.sort

/-- A relation between the timestamps does not see the stream index. -/
lemma pairwise_pieces_iff {r : UInt64 → UInt64 → Prop} {calls : List (Bytes × List DataPiece)}
    {index : Bytes → ℤ} {take : List DataPiece → List DataPiece} :
    (calls.flatMap fun call => (take call.2).map (piece (index call.1))).Pairwise
        (fun a b => r a.time_ns b.time_ns) ↔
      (calls.flatMap fun call => take call.2).Pairwise fun a b => r a.time_ns b.time_ns := by
  have htimes : (calls.flatMap fun call => (take call.2).map (piece (index call.1))).map
      DataPiece.time_ns = (calls.flatMap fun call => take call.2).map DataPiece.time_ns := by
    rw [List.map_flatMap, List.map_flatMap]
    refine List.flatMap_congr fun call _ => ?_
    rw [List.map_map]
    rfl
  rw [← List.pairwise_map (f := DataPiece.time_ns) (R := r), htimes, List.pairwise_map]

/-- **When the output is in time order**: of the records that are taken, those of the same second
were added in the order of their timestamps.  Whatever the streams and the calls are, nothing is
sorted within a second. -/
theorem save_sorted_iff (hsecond : ∀ a b : UInt64, a ≤ b → second a ≤ second b)
    (calls : List (Bytes × List DataPiece)) :
    (((make second start_time end_time).addAll second calls).save.1.flatten.Pairwise
        fun a b => a.time_ns ≤ b.time_ns) ↔
      (calls.flatMap fun call => kept second (second start_time) (second end_time) call.2).Pairwise
        fun a b => second a.time_ns = second b.time_ns → a.time_ns ≤ b.time_ns := by
  have horder : ∀ a b : DataPiece, second a.time_ns < second b.time_ns →
    a.time_ns ≤ b.time_ns := by
    intro a b hlt
    by_contra hle
    have := hsecond b.time_ns a.time_ns (UInt64.le_of_lt (UInt64.not_le.mp hle))
    omega
  rw [(addAll_stable calls).pairwise_iff horder]
  exact pairwise_pieces_iff (r := fun s t => second s = second t → s ≤ t)

/-- The whole seconds of a timestamp. -/
def wholeSeconds (time_ns : UInt64) : ℕ := time_ns.toNat / 1000000000

lemma wholeSeconds_mono (a b : UInt64) (h : a ≤ b) : wholeSeconds a ≤ wholeSeconds b :=
  Nat.div_le_div_right (UInt64.le_iff_toNat_le.mp h)

/-- Two streams with a record each, in the order of their timestamps. -/
theorem save_sorted_two_streams :
    (((make wholeSeconds 0 5000000000).addAll wholeSeconds
      [(ascii "a", [⟨1200000000, [1], 0⟩]),
        (ascii "b", [⟨1500000000, [2], 0⟩])]).save.1.flatten.Pairwise
          fun a b => a.time_ns ≤ b.time_ns) :=
  (save_sorted_iff wholeSeconds_mono _).mpr (by decide +kernel)

/-- The records of two streams in the same second, the later one first. -/
theorem save_not_sorted :
    ¬ (((make wholeSeconds 0 5000000000).addAll wholeSeconds
      [(ascii "a", [⟨1500000000, [1], 0⟩]),
        (ascii "b", [⟨1200000000, [2], 0⟩])]).save.1.flatten.Pairwise
          fun a b => a.time_ns ≤ b.time_ns) := by
  decide +kernel

end Order

/-! ## The records of the output -/

section Records

variable {second : UInt64 → ℕ} {start_time end_time : UInt64}

/-- The stream that an index stands for. -/
def nameOf (c : StreamsCombiner) (stream_idx : UInt32) : Option Bytes :=
  (c.streams.find? fun e => UInt32.ofInt e.2 = stream_idx).map Prod.fst

/-- A saved record, with its stream. -/
def named (c : StreamsCombiner) (it : DataPiece) : UInt64 × Bytes × Option Bytes :=
  (it.time_ns, it.data, c.nameOf it.stream_idx)

/-- A sequence of calls loses and invents nothing: what is saved are the records in range, each once
and under its stream, and the streams are numbered in the order in which they were added. -/
structure Combines (second : UInt64 → ℕ) (start_time end_time : UInt64)
    (calls : List (Bytes × List DataPiece)) : Prop where
  records : let c := (make second start_time end_time).addAll second calls
    (c.save.1.flatten.map c.named).Perm (calls.flatMap fun call =>
      (call.2.filter (InRange second (second start_time) (second end_time) ·)).map fun it =>
        (it.time_ns, it.data, some call.1))
  size : let c := (make second start_time end_time).addAll second calls
    c.save.2 = c.save.1.flatten.length
  distinct : let c := (make second start_time end_time).addAll second calls
    (c.streams.map Prod.fst).Nodup ∧
      c.streams.map Prod.snd = (List.range c.streams.length).map fun i : ℕ => (i : ℤ)
  stable : ∀ more, ((make second start_time end_time).addAll second calls).streams <+:
    ((make second start_time end_time).addAll second (calls ++ more)).streams

lemma toInt_two_pow : toInt (2 ^ 31 : ℕ) = -2 ^ 31 := by decide +kernel

/-- The indices are counted up as long as they fit an `int`. -/
lemma counted_iff {l : List (Bytes × ℤ)} (h : Indexed l) :
    (l.map Prod.snd = (List.range l.length).map fun i : ℕ => (i : ℤ)) ↔
      l.length ≤ 2 ^ 31 := by
  rw [h.counted]
  constructor
  · intro heq
    by_contra hlt
    have hmem : 2 ^ 31 ∈ List.range l.length := List.mem_range.mpr (by omega)
    have := List.map_inj_left.mp heq _ hmem
    rw [toInt_two_pow] at this
    omega
  · intro hle
    refine List.map_congr_left fun i hi => toInt_of_lt ?_
    have := List.mem_range.mp hi
    omega

/-- **An index leads back to its stream.** -/
lemma nameOf_indexOf {c : StreamsCombiner} (h : Indexed c.indices_)
    (hle : c.indices_.length ≤ 2 ^ 31) {stream : Bytes}
    (hknown : (c.indices_.lookup stream).isSome = true) :
    c.nameOf (UInt32.ofInt (c.indexOf stream)) = some stream := by
  obtain ⟨index, hindex⟩ := Option.isSome_iff_exists.mp hknown
  have hmem : (stream, index) ∈ c.indices_ := by
    obtain ⟨l₁, l₂, heq, -⟩ := List.lookup_eq_some_iff.mp hindex
    simp [heq]
  have hbound : ∀ e ∈ c.indices_, 0 ≤ e.2 ∧ e.2 < 2 ^ 31 := by
    intro e he
    have := List.mem_map_of_mem (f := Prod.snd) he
    rw [(counted_iff h).mpr hle] at this
    obtain ⟨i, hi, heq⟩ := List.mem_map.mp this
    have := List.mem_range.mp hi
    omega
  have hindices : (c.indices_.map Prod.snd).Nodup := by
    rw [(counted_iff h).mpr hle]
    exact List.nodup_range.map fun i j hij => Int.ofNat.inj hij
  rw [nameOf, streams, indexOf, hindex, Option.getD_some]
  cases hfind : c.indices_.find? fun e => UInt32.ofInt e.2 = UInt32.ofInt index with
  | none =>
      have := List.find?_eq_none.mp hfind _ hmem
      simp at this
  | some e =>
      have he := List.mem_of_find?_eq_some hfind
      have heq : UInt32.ofInt e.2 = UInt32.ofInt index := by
        simpa using List.find?_some hfind
      have hvalue : e.2 = index := by
        have h₁ := hbound e he
        have h₂ := hbound _ hmem
        have := congrArg UInt32.toNat heq
        simp only [UInt32.ofInt, UInt32.toNat_ofNat'] at this
        omega
      have : e = (stream, index) := List.inj_on_of_nodup_map hindices he hmem hvalue
      rw [this]
      rfl

/-- Sublists whose concatenations are of the same length are the whole lists. -/
lemma eq_of_length_flatMap {α β : Type*} {l : List α} {f g : α → List β}
    (hsub : ∀ a ∈ l, (f a).Sublist (g a))
    (hlen : (l.flatMap f).length = (l.flatMap g).length) : ∀ a ∈ l, f a = g a := by
  induction l with
  | nil => simp
  | cons a l ih =>
      obtain ⟨ha, hl⟩ := List.forall_mem_cons.mp hsub
      have hle : (l.flatMap f).length ≤ (l.flatMap g).length :=
        (List.Sublist.flatMap_right l hl).length_le
      simp only [List.flatMap_cons, List.length_append] at hlen
      have := ha.length_le
      exact List.forall_mem_cons.mpr ⟨ha.eq_of_length (by omega), ih hl (by omega)⟩

/-- What is saved, with the streams: the records that the calls take. -/
lemma saved_perm (calls : List (Bytes × List DataPiece))
    (hle : ((make second start_time end_time).addAll second calls).indices_.length ≤ 2 ^ 31) :
    (((make second start_time end_time).addAll second calls).save.1.flatten.map
        ((make second start_time end_time).addAll second calls).named).Perm
      (calls.flatMap fun call => (kept second (second start_time) (second end_time) call.2).map
        fun it => (it.time_ns, it.data, some call.1)) := by
  obtain ⟨-, -, hindexed, hknown, -⟩ :=
    addAll_sorts (sorts_make second start_time end_time) indexed_nil calls
  refine ((addAll_stable calls).perm.map _).trans (List.Perm.of_eq ?_)
  rw [List.map_flatMap]
  refine List.flatMap_congr fun call hcall => ?_
  rw [List.map_map]
  refine List.map_congr_left fun it _ => ?_
  rw [Function.comp_apply, named, piece, nameOf_indexOf hindexed hle (hknown call hcall)]

/-- **The combiner neither loses nor invents records** exactly when no call has a record in range
behind a late one, no record in range is of the second that stands for none, and the streams are few
enough to be numbered. -/
theorem combines_iff (calls : List (Bytes × List DataPiece)) :
    Combines second start_time end_time calls ↔
      (calls.map Prod.fst).dedup.length ≤ 2 ^ 31 ∧ ∀ call ∈ calls,
        (∀ it ∈ call.2, InRange second (second start_time) (second end_time) it →
          second it.time_ns ≠ 0) ∧
        call.2.Pairwise fun a b => Late second (second start_time) (second end_time) a →
          ¬ InRange second (second start_time) (second end_time) b := by
  obtain ⟨hsorts, -, hindexed, -, hnames⟩ :=
    addAll_sorts (sorts_make second start_time end_time) indexed_nil calls
  have hcount : ((make second start_time end_time).addAll second calls).indices_.length =
      (calls.map Prod.fst).dedup.length := by
    rw [← List.length_map (f := Prod.fst)]
    refine ((List.perm_ext_iff_of_nodup hindexed.names (List.nodup_dedup _)).mpr ?_).length_eq
    intro name
    rw [hnames name, List.mem_dedup]
    simp [make]
  constructor
  · intro h
    have hle := (counted_iff hindexed).mp h.distinct.2
    refine ⟨hcount ▸ hle, ?_⟩
    have hlen := ((saved_perm calls hle).symm.trans h.records).length_eq
    -- as many records are saved as there are in range, so none is left out
    have hall : ∀ call ∈ calls, kept second (second start_time) (second end_time) call.2 =
        call.2.filter (InRange second (second start_time) (second end_time) ·) := by
      refine eq_of_length_flatMap (fun call _ => kept_sublist call.2) ?_
      simpa only [List.length_flatMap, List.length_map] using hlen
    exact fun call hcall => kept_eq_iff.mp (hall call hcall)
  · rintro ⟨hle, hcond⟩
    rw [← hcount] at hle
    refine ⟨?_, ?_, ⟨hindexed.names, (counted_iff hindexed).mpr hle⟩, fun more => ?_⟩
    · refine (saved_perm calls hle).trans (List.Perm.of_eq ?_)
      refine List.flatMap_congr fun call hcall => ?_
      rw [kept_eq_iff.mpr (hcond call hcall)]
    · change _ = List.length (List.flatten (List.map _ _))
      rw [List.length_flatten, List.map_map]
      rfl
    · rw [streams, streams, addAll, addAll, List.foldl_append]
      exact (addAll_sorts hsorts hindexed more).2.1

/-- A record of the first second after the epoch is lost, and so is one behind a late record. -/
theorem combines_loses :
    ¬ Combines wholeSeconds 0 5000000000 [(ascii "a", [⟨500000000, [1], 0⟩])] ∧
    ¬ Combines wholeSeconds 1000000000 5000000000
      [(ascii "a", [⟨9000000000, [1], 0⟩, ⟨2000000000, [2], 0⟩])] := by
  constructor
  · intro h
    exact absurd h.records (by decide +kernel)
  · intro h
    exact absurd h.records (by decide +kernel)

end Records

end StreamsCombiner

end Tracebox
