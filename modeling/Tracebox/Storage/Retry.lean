import Tracebox.Storage.Confinement
import Tracebox.Stream.Faults

/-!
# Repeating a failed write

When the day directory or one of the files of a channel cannot be created, `Folder::write` fails and
**leaves behind what it had begun**: `create` has already taken the day into the path of the folder,
and the channel is in the map before its files are opened.

* `CreationFails` — the exits in question: the directory, the two files of a channel that is new,
  and the new pair of a channel that rolls over.
* `write_folder`, `writeChannel_stuck` — a folder without a day never keeps its path, and a
  channel whose files could not be opened stays in the map with a stream that is closed.
* `failed_write_sticks` — **no failure of this kind can be undone by repeating the request**.
* `retry_goes_astray` — a directory that could not be created once: the repetition is successful,
  and its record is stored one directory too deep.
-/

namespace Tracebox

open Bytes

/-- The write needs a new pair of files, and that cannot be opened. -/
def StreamWriter.RolloverFails (host : Host) (s : StreamWriter) (request : LogRequest)
    (w : World) : Prop :=
  live s.index_ ≠ none ∧ s.record_size_ = 0 ∧ live s.data_ ≠ none ∧
    s.rollover request.data = true ∧
    ((s.closeFile host (w.now host).2).1.reopenFile host request.time_ns
      (s.closeFile host (w.now host).2).2).1.positive = false

namespace Folder

/-- A file of the channel cannot be created. -/
def ChannelFails (host : Host) (f : Folder) (request : LogRequest) (w : World) : Prop :=
  match f.files_.lookup request.channel with
  | some s => s.RolloverFails host request w
  | none =>
      let o := ({ folder_ := f.folder_ } : StreamWriter).openFile host request w
      o.1.positive = false ∨ o.2.1.RolloverFails host request o.2.2

/-- The day directory or a file of the channel cannot be created. -/
def CreationFails (host : Host) (f : Folder) (request : LogRequest) (w : World) : Prop :=
  if f.yyyymmdd_ = 0 then
    let c := f.create host request.time_ns w
    c.1 ≠ some true ∨ c.2.1.ChannelFails host request c.2.2
  else f.ChannelFails host request w

/-- The same day, the same path and the same channels. -/
structure SameState (f f' : Folder) : Prop where
  day : f'.yyyymmdd_ = f.yyyymmdd_
  folder : f'.folder_ = f.folder_
  channels : ∀ channel, channel ∈ f'.files_.map Prod.fst ↔ channel ∈ f.files_.map Prod.fst

/-- The state is as before, and there are circumstances in which the request is successful now. -/
def Reusable (f f' : Folder) (request : LogRequest) : Prop :=
  SameState f f' ∧ ∃ host w, (f'.write host request w).1.positive = true

variable {host : Host} {f : Folder} {request : LogRequest} {w : World}

/-! ## The path -/

lemma folder_create (host : Host) (f : Folder) (time_ns : UInt64) (w : World) :
    (f.create host time_ns w).2.1.folder_ =
      f.folder_ ++ [toDec (host.cal.Time2YYYYMMDD time_ns)] := by
  simp only [create]
  split
  · rfl
  · split <;> rfl

/-- **A folder without a day goes one directory deeper**, whatever comes of the write. -/
lemma write_folder (h0 : f.yyyymmdd_ = 0) : (f.write host request w).2.1.folder_ =
    f.folder_ ++ [toDec (host.cal.Time2YYYYMMDD request.time_ns)] := by
  have hfolder := folder_create host f request.time_ns w
  simp only [write, h0, if_true]
  generalize f.create host request.time_ns w = c at hfolder ⊢
  split
  · exact hfolder
  · exact hfolder
  · rw [folder_writeChannel]
    exact hfolder

/-! ## The channel -/

lemma lookup_update {s s' : StreamWriter} {channel : Bytes}
    (h : f.files_.lookup channel = some s) :
    (f.update channel s').files_.lookup channel = some s' := by
  have key : ∀ files : List (Bytes × StreamWriter), files.lookup channel = some s →
      (files.map fun e => if e.1 = channel then (channel, s') else e).lookup channel = some s' := by
    intro files
    induction files with
    | nil => simp
    | cons e es ih =>
        intro hlook
        by_cases hc : e.1 = channel
        · simp [hc]
        · have hne : (channel == e.1) = false := by simpa using fun h => hc h.symm
          rw [List.map_cons, if_neg hc, List.lookup_cons, hne]
          rw [List.lookup_cons, hne] at hlook
          exact ih hlook
  exact key f.files_ h

lemma lookup_added {s : StreamWriter} {channel : Bytes} (h : f.files_.lookup channel = none) :
    (f.files_ ++ [(channel, s)]).lookup channel = some s := by
  rw [List.lookup_append, h, Option.none_or, List.lookup_cons_self]

/-- A rollover that fails leaves the stream closed. -/
lemma rollover_stuck {s : StreamWriter} (h : s.RolloverFails host request w) :
    (s.write host request.time_ns request.data w).1.positive = false ∧
      StreamWriter.live (s.write host request.time_ns request.data w).2.1.index_ = none := by
  obtain ⟨hindex, hsize, hdata, hroll, hfail⟩ := h
  obtain ⟨fi, hi⟩ := Option.ne_none_iff_exists'.mp hindex
  obtain ⟨fd, hd⟩ := Option.ne_none_iff_exists'.mp hdata
  obtain ⟨⟨out, s₁, w₁⟩, hre⟩ : ∃ x, x =
    (s.closeFile host (w.now host).2).1.reopenFile host
    request.time_ns (s.closeFile host (w.now host).2).2 := ⟨_, rfl⟩
  rw [← hre] at hfail
  have hclosed := StreamWriter.reopenFile_closed hre.symm
    (StreamWriter.live_closeFile host s (w.now host).2).1 hfail
  simp only [StreamWriter.write, hi, hsize, ne_eq, not_true_eq_false, if_false,
    StreamWriter.writeVariable, hd, hroll, if_true, ← hre]
  cases out with
  | ret v =>
      have hv : v ≤ 0 := by simpa [Outcome.positive] using hfail
      simp only [hv, if_true]
      exact ⟨hfail, hclosed⟩
  | thrown => exact ⟨rfl, hclosed⟩
  | hangs => exact ⟨rfl, hclosed⟩

/-- **A channel whose files cannot be created** is in the map afterwards, and its stream is
closed. -/
lemma writeChannel_stuck (h : f.ChannelFails host request w) :
    (f.writeChannel host request w).1.positive = false ∧
      ∃ s, (f.writeChannel host request w).2.1.files_.lookup request.channel = some s ∧
        StreamWriter.live s.index_ = none := by
  unfold ChannelFails at h
  cases hlook : f.files_.lookup request.channel with
  | some s =>
      simp only [hlook] at h
      simp only [writeChannel, hlook, writeTo]
      obtain ⟨hout, hclosed⟩ := rollover_stuck h
      exact ⟨hout, _, lookup_update hlook, hclosed⟩
  | none =>
      simp only [hlook] at h
      simp only [writeChannel, hlook]
      obtain ⟨⟨out, s, w₁⟩, ho⟩ : ∃ o, o =
        ({ folder_ := f.folder_ } : StreamWriter).openFile host
        request w := ⟨_, rfl⟩
      rw [← ho] at h ⊢
      have hadded := lookup_added (s := s) hlook
      by_cases hout : out.positive = true
      · obtain ⟨v, rfl, hv⟩ := Outcome.positive_iff.mp hout
        obtain ⟨hfail, hclosed⟩ := rollover_stuck (h.resolve_left (by rw [hout]; decide))
        simp only [not_le.mpr hv, if_false, writeTo]
        exact ⟨hfail, _, lookup_update hadded, hclosed⟩
      · have hfalse : out.positive = false := by simpa using hout
        have hclosed := StreamWriter.reopenFile_closed ho.symm rfl hfalse
        cases out with
        | ret v =>
            have hv : v ≤ 0 := by simpa [Outcome.positive] using hfalse
            simp only [hv, if_true]
            exact ⟨hfalse, s, hadded, hclosed⟩
        | thrown => exact ⟨rfl, s, hadded, hclosed⟩
        | hangs => exact ⟨rfl, s, hadded, hclosed⟩

/-- **Nothing is ever written through a closed stream**: every later request for its channel is
refused. -/
lemma write_closed {s : StreamWriter} (hday : f.yyyymmdd_ ≠ 0)
    (hlook : f.files_.lookup request.channel = some s)
    (hclosed : StreamWriter.live s.index_ = none) :
    (f.write host request w).1 = .ret (-EINVAL) := by
  simp only [write, hday, if_false, writeChannel, hlook, writeTo, StreamWriter.write, hclosed]

/-! ## The write -/

/-- A write whose directory or files cannot be created fails. -/
lemma write_fails (h : f.CreationFails host request w) :
    (f.write host request w).1.positive = false := by
  unfold CreationFails at h
  by_cases h0 : f.yyyymmdd_ = 0
  · simp only [h0, if_true] at h
    simp only [write, h0, if_true]
    obtain ⟨⟨made, f₁, w₁⟩, hc⟩ : ∃ c, c = f.create host request.time_ns w :=
      ⟨_, rfl⟩
    rw [← hc] at h ⊢
    cases made with
    | none => rfl
    | some made =>
        cases made with
        | false => exact (by decide : (Outcome.ret (-EINVAL)).positive = false)
        | true => exact (writeChannel_stuck (h.resolve_left fun hne => hne rfl)).1
  · simp only [h0, if_false] at h
    simp only [write, h0, if_false]
    exact (writeChannel_stuck h).1

/-- **A write that fails because a directory or a file could not be created is not undone.**  Either
the state of the folder has changed, or the request can never be successful any more. -/
theorem failed_write_sticks (h : f.CreationFails host request w) :
    (f.write host request w).1.positive = false ∧
      ¬ Reusable f (f.write host request w).2.1 request := by
  refine ⟨write_fails h, ?_⟩
  rintro ⟨hsame, host', w', hpos⟩
  by_cases h0 : f.yyyymmdd_ = 0
  · -- the path has grown
    have hfolder := hsame.folder
    rw [write_folder h0] at hfolder
    have := congrArg List.length hfolder
    simp at this
  · unfold CreationFails at h
    simp only [h0, if_false] at h
    have hwrite : f.write host request w = f.writeChannel host request w := if_neg h0
    rw [hwrite] at hpos
    obtain ⟨-, s, hlook, hclosed⟩ := writeChannel_stuck h
    have hday : (f.writeChannel host request w).2.1.yyyymmdd_ ≠ 0 := by
      rw [yyyymmdd_writeChannel]
      exact h0
    rw [write_closed hday hlook hclosed] at hpos
    cases hpos

/-- A host on which the first call fails. -/
def firstFails : Host :=
  { Host.january with outcome := fun n => if n = 0 then .fail 0 else .ok }

/-- A record of the channel `a`. -/
def firstRequest : LogRequest :=
  { channel := ascii "a", size := 0, data := [1], time_ns := 1704067200000000000 }

/-- The first write of a new folder, whose day directory cannot be created. -/
def refused : Outcome × Folder × World :=
  ({ folder_ := [ascii "r"] } : Folder).write firstFails firstRequest (.bare [ascii "r"])

/-- The directory cannot be created. -/
theorem failed_write_sticks_first :
    refused.1.positive = false ∧ ¬ Reusable { folder_ := [ascii "r"] } refused.2.1
      firstRequest := by
  refine failed_write_sticks ?_
  unfold CreationFails
  rw [if_pos rfl]
  exact Or.inl (by decide +kernel)

/-- **The directory could not be created once.**  The path of the folder has the day in it already,
and the same request, repeated when nothing fails any more, stores its record two directories below
the root. -/
theorem retry_goes_astray :
    let again := refused.2.1.write firstFails firstRequest refused.2.2
    refused.1 = .ret (-EINVAL) ∧ refused.2.1.folder_ = [ascii "r", ascii "20240101"] ∧
      again.1.positive = true ∧
      again.2.2.tree.lookup [ascii "r", ascii "20240101", ascii "20240101",
        ascii "000000_a_0.idx"] = some (.file 0) ∧
      again.2.2.tree.lookup [ascii "r", ascii "20240101", ascii "000000_a_0.idx"] = none := by
  decide +kernel

end Folder

end Tracebox
