import Tracebox.Storage.Retained

/-!
# Sessions

A program opens the storage, hands it requests and closes it, and the next one opens the same root.

* `session`, `sessionTurns` — one program, and what it does to the archive.
* `found_of_shows` — a client finds the archive that is shown.
* `sessions_found` — **what a client finds after any number of programs**: of each day, the
  records that were entered after the day was deleted last, and what was there at first, if it never
  was.
-/

namespace Tracebox

open Bytes FilesystemStorageBackend

/-- What a program opens the storage with, and what it hands to it. -/
structure Sitting where
  max_size : ℤ
  requests : List LogRequest
  deriving DecidableEq

section Defs

variable (host : Host) (root : Path)

/-- The constructor, the calls of `write`, and the destructor. -/
def session (w : World) (s : Sitting) : Option World :=
  (Storage.make root s.max_size w).bind fun y =>
    (Machine.run (Storage.writeStep host) y s.requests).map fun x => x.1.backend_.destroy host x.2

/-- What a program does to the archive. -/
def sessionTurns (start end_ : UInt64) (w : World) (s : Sitting) :
    List (Archive.Turn Bytes (Bytes × DataPiece)) :=
  match Storage.make root s.max_size w with
  | none => []
  | some y => ⟨(FilesystemStorageBackend.make root).evicted w y.2, none⟩ ::
      Archive.turns (Storage.writeStep host) (Storage.turn host start end_) y s.requests

/-- What the programs do to the archive, one after the other. -/
def sessionsTurns (start end_ : UInt64) : World → List Sitting →
    List (Archive.Turn Bytes (Bytes × DataPiece))
  | _, [] => []
  | w, s :: ss => sessionTurns host root start end_ w s ++ match session host root w s with
    | none => []
    | some w' => sessionsTurns start end_ w' ss

/-- Requests as the clients send them, those of a channel in the order of their times, and index
files that can be measured. -/
structure Admissible (w : World) (s : Sitting) : Prop where
  proper : ∀ r ∈ s.requests, r.Proper
  sorted : s.requests.Pairwise fun a b => a.channel = b.channel → a.time_ns ≤ b.time_ns
  fits : ∀ y, Storage.make root s.max_size w = some y →
    Machine.Throughout (Storage.writeStep host)
    (fun x r => x.1.IndexFits host r x.2) y s.requests

end Defs

variable {host : Host} {root : Path} {w w' : World}

/-- **What one program leaves.** -/
lemma session_shows (hn : host.NeverFails) (hplain : root.Plain)
    (hidx : find dotIdx root.string = none)
    (hmono : ∀ s t, s ≤ t → host.cal.Time2YYYYMMDD s ≤ host.cal.Time2YYYYMMDD t)
    (hw : Settled root w) {s : Sitting} (hs : Admissible host root w s)
    (h : session host root w s = some w') {overrun : Path → Bytes} {start end_ : UInt64}
    {log : Archive Bytes (Bytes × DataPiece)}
    (hlog : Shows root host.cal overrun start end_ w log) :
    Settled root w' ∧ Shows root host.cal overrun start end_ w'
      (Archive.replay log (sessionTurns host root start end_ w s)) := by
  obtain ⟨⟨st₀, w₁⟩, hmake, hrest⟩ := Option.bind_eq_some_iff.mp h
  obtain ⟨x, hrun, rfl⟩ := Option.map_eq_some_iff.mp hrest
  have hleft := storage_shows hn hplain hidx hmono hw hmake hs.proper hs.sorted
    (hs.fits _ hmake) hrun hlog
  rwa [sessionTurns, hmake]

/-- **What any number of programs leave.** -/
lemma sessions_show (hn : host.NeverFails) (hplain : root.Plain)
    (hidx : find dotIdx root.string = none)
    (hmono : ∀ s t, s ≤ t → host.cal.Time2YYYYMMDD s ≤ host.cal.Time2YYYYMMDD t)
    {overrun : Path → Bytes} {start end_ : UInt64} {ss : List Sitting} (hw : Settled root w)
    (hok : Machine.Throughout (session host root) (Admissible host root) w ss)
    (hrun : Machine.run (session host root) w ss = some w')
    {log : Archive Bytes (Bytes × DataPiece)}
    (hlog : Shows root host.cal overrun start end_ w log) :
    Settled root w' ∧ Shows root host.cal overrun start end_ w'
      (Archive.replay log (sessionsTurns host root start end_ w ss)) := by
  induction ss generalizing w log with
  | nil =>
      cases hrun
      exact ⟨hw, hlog⟩
  | cons s ss ih =>
      obtain ⟨w₁, hone, hrun⟩ := Machine.run_cons_iff.mp hrun
      obtain ⟨hs, hok⟩ := (Machine.throughout_cons_iff hone).mp hok
      obtain ⟨hw₁, hfirst⟩ := session_shows hn hplain hidx hmono hw hs hone hlog
      obtain ⟨hw', hlater⟩ := ih hw₁ hok hrun hfirst
      rw [sessionsTurns, hone, Archive.replay_append]
      exact ⟨hw', hlater⟩

/-- **A client finds the archive that is shown**: all of it, each record once, and those of a stream
in their order. -/
lemma found_of_shows (hplain : root.Plain) (hw : Settled root w) {cal : Calendar}
    {overrun : Path → Bytes} {start end_ : UInt64} {log : Archive Bytes (Bytes × DataPiece)}
    (h : Shows root cal overrun start end_ w log) :
    ∃ answer, ((StorageScanner.make (w.asIs overrun) root).bind fun s =>
        s.collected cal (w.asIs overrun) start end_) = some answer ∧
      (answer.flatMap fun x => x.2.map fun d => (x.1.name, d)).Perm
        (((w.tree.children root).map Prod.fst).flatMap log) ∧
      ∀ x ∈ answer, ∃ day ∈ (w.tree.children root).map Prod.fst,
        (x.2.map fun d => (x.1.name, d)).Sublist (log day) := by
  obtain ⟨answer, hanswer, hall, heach⟩ := collected_found hw cal overrun start end_
  have hmake : StorageScanner.make (w.asIs overrun) root = some ⟨root⟩ := by
    change (some (normalize root)).map _ = _
    rw [hplain.normalize]
    rfl
  refine ⟨answer, by rw [hmake]; exact hanswer, ?_, fun x hx => ?_⟩
  · rw [hall]
    exact List.Perm.flatMap_left _ fun day _ => h.all day
  · obtain ⟨day, hday, hrange, name, heq⟩ := heach x hx
    refine ⟨day, hday, ?_⟩
    rw [heq]
    exact h.each day name hrange

/-- **What a client finds after any number of programs.**  It lists the streams of a range and reads
each of them.  Of each day directory there are, one after the other, what a client found there
before the first program, unless one of the programs has deleted the day, and the records of the
range that were reported, into files that were not gone, after the day was deleted last.  The answer
has all of them, each once, and the records of one stream are in this order. -/
theorem sessions_found (hn : host.NeverFails) (hplain : root.Plain)
    (hidx : find dotIdx root.string = none)
    (hmono : ∀ s t, s ≤ t → host.cal.Time2YYYYMMDD s ≤ host.cal.Time2YYYYMMDD t)
    {ss : List Sitting} (hw : Settled root w)
    (hok : Machine.Throughout (session host root) (Admissible host root) w ss)
    (hrun : Machine.run (session host root) w ss = some w') (overrun : Path → Bytes)
    (start end_ : UInt64) :
    let turns := sessionsTurns host root start end_ w ss
    let log := fun day =>
      (if Archive.Spared day turns then foundIn root host.cal (w.asIs overrun) start
        end_ day else [])
        ++ Archive.survivors day turns
    let days := (w'.tree.children root).map Prod.fst
    ∃ answer, ((StorageScanner.make (w'.asIs overrun) root).bind fun s =>
        s.collected host.cal (w'.asIs overrun) start end_) = some answer ∧
      (answer.flatMap fun x => x.2.map fun d => (x.1.name, d)).Perm (days.flatMap log) ∧
      ∀ x ∈ answer, ∃ day ∈ days, (x.2.map fun d => (x.1.name, d)).Sublist (log day) := by
  intro turns log days
  obtain ⟨hw', hshows⟩ := sessions_show hn hplain hidx hmono hw hok hrun
    (shows_self hw host.cal overrun start end_)
  have hlog : Archive.replay (foundIn root host.cal (w.asIs overrun) start end_) turns = log :=
    funext fun day => Archive.replay_apply _ turns day
  exact found_of_shows hplain hw' (hlog ▸ hshows)

/-! ## A root that is opened twice -/

instance (host : Host) (root : Path) (w : World) (s : Sitting) :
    Decidable (Admissible host root w s) :=
  decidable_of_iff ((∀ r ∈ s.requests, r.Proper) ∧
      s.requests.Pairwise (fun a b => a.channel = b.channel → a.time_ns ≤ b.time_ns) ∧
      ∀ y ∈ Storage.make root s.max_size w, Machine.Throughout (Storage.writeStep host)
        (fun x r => x.1.IndexFits host r x.2) y s.requests)
    ⟨fun ⟨hproper, hsorted, hfits⟩ => ⟨hproper, hsorted, hfits⟩,
      fun h => ⟨h.proper, h.sorted, h.fits⟩⟩

/-- Two channels on the first day; then one channel on the second, with room for one day only. -/
def twoSittings : List Sitting :=
  [⟨1000, dayRequests.take 2⟩,
    ⟨260, [⟨ascii "a", 0, [7], 1704153600000000000⟩,
      ⟨ascii "a", 0, [8], 1704153600000000001⟩]⟩]

/-- The second sitting has taken the place of the first day, and its records come as they were
written. -/
theorem sessions_found_second :
    ∃ w' answer, Machine.run (session .january [ascii "r"]) (.bare [ascii "r"]) twoSittings =
        some w' ∧
      ((StorageScanner.make (w'.asIs fun _ => []) [ascii "r"]).bind fun s =>
        s.collected Host.january.cal (w'.asIs fun _ => []) 1704067200000000000
          1704200000000000000) = some answer ∧
      (answer.flatMap fun x => x.2.map fun d => (x.1.name, d)).Perm
        [(ascii "a", ⟨1704153600000000000, [7], 0⟩),
          (ascii "a", ⟨1704153600000000001, [8], 0⟩)] ∧
      ∀ x ∈ answer, (x.2.map fun d => (x.1.name, d)).Sublist
        [(ascii "a", ⟨1704153600000000000, [7], 0⟩),
          (ascii "a", ⟨1704153600000000001, [8], 0⟩)] := by
  obtain ⟨hplain, hidx⟩ : Path.Plain [ascii "r"] ∧
    find dotIdx (Path.string [ascii "r"]) = none := by
    decide +kernel
  have hok : Machine.Throughout (session .january [ascii "r"]) (Admissible .january [ascii "r"])
      (.bare [ascii "r"]) twoSittings := by decide +kernel
  obtain ⟨w', hrun⟩ : ∃ w', Machine.run (session .january [ascii "r"]) (.bare [ascii "r"])
      twoSittings = some w' := Option.isSome_iff_exists.mp (by decide +kernel)
  obtain ⟨answer, hanswer, hall, heach⟩ := sessions_found Host.neverFails_january hplain hidx
    january_mono (settled_of_empty emptyRoot_bare) hok hrun (fun _ => []) 1704067200000000000
    1704200000000000000
  have hdays : (Machine.run (session .january [ascii "r"]) (.bare [ascii "r"]) twoSittings).map
      (fun w => (w.tree.children [ascii "r"]).map Prod.fst) = some [ascii "20240102"] := by
    decide +kernel
  rw [hrun, Option.map_some, Option.some.injEq] at hdays
  rw [hdays, List.flatMap_singleton] at hall
  have hlog : ((if Archive.Spared (ascii "20240102") (sessionsTurns .january [ascii "r"]
        1704067200000000000 1704200000000000000 (.bare [ascii "r"]) twoSittings) then
      foundIn [ascii "r"] Host.january.cal ((World.bare [ascii "r"]).asIs fun _ => [])
        1704067200000000000 1704200000000000000 (ascii "20240102") else []) ++
      Archive.survivors (ascii "20240102") (sessionsTurns .january [ascii "r"]
        1704067200000000000 1704200000000000000 (.bare [ascii "r"]) twoSittings)) =
      [(ascii "a", ⟨1704153600000000000, [7], 0⟩),
        (ascii "a", ⟨1704153600000000001, [8], 0⟩)] := by
    decide +kernel
  refine ⟨w', answer, hrun, hanswer, hlog ▸ hall, fun x hx => ?_⟩
  obtain ⟨day, hday, hsub⟩ := heach x hx
  rw [hdays, List.mem_singleton] at hday
  rw [← hlog]
  rwa [hday] at hsub

end Tracebox
